import PeerBeam.Chat.Store
import PeerBeam.Groups.Record
import PeerBeam.Lib.Run

/-! Everything that reads messages back: a conversation, a group across its members' conversations,
a search over all of them, and the next queued file. A read may write a row back with the file that
has landed, so each returns the store as well. -/
namespace PeerBeam.Chat

namespace ChatStore
variable (c : Chrono) (s : ChatStore)

/-- The loop of `records`. -/
def shown (includeGroups : Bool) (r : Retention) (now : Int) :
    ChatStore → List (String × Option ChatRecord) → ChatStore × List ChatRecord
  | s, [] => (s, [])
  | s, (_, none) :: rest => shown includeGroups r now s rest
  | s, (_, some rec) :: rest =>
    if rec.hasDisappeared c r now then shown includeGroups r now s rest
    else if rec.group.isSome && !includeGroups then shown includeGroups r now s rest
    else
      let later := shown includeGroups r now (s.withLanding rec).1 rest
      (later.1, (s.withLanding rec).2 :: later.2)

def records (now : Int) (peer : DeviceId) (includeGroups : Bool) :
    Except ChatError (ChatStore × List ChatRecord) :=
  (s.retention peer).map fun r => shown c includeGroups r now s (s.rows peer).toList

def history (now : Int) (peer : DeviceId) : Except ChatError (ChatStore × List ChatRecord) :=
  s.records c now peer false

/-- The peers of every namespace that holds a row, private thread or not. -/
def peerNamespaces : List DeviceId :=
  (s.conversations.toList.filter fun space => !space.2.isEmpty).map Prod.fst

/-- What `group_history` has gathered, each row with the namespace it is from. -/
structure Gathered where
  store : ChatStore
  seen : List String
  out : List (DeviceId × ChatRecord)

def gather (group : String) (r : Retention) (now : Int) (peer : DeviceId) (g : Gathered) :
    Option ChatRecord → Gathered
  | none => g
  | some rec =>
    if rec.group ≠ some group then g
    else if rec.hasDisappeared c r now then g
    else if rec.id ∈ g.seen then g
    else
      { store := (g.store.withLanding rec).1
        seen := rec.id :: g.seen
        out := g.out ++ [(peer, (g.store.withLanding rec).2)] }

def gatherFrom (group : String) (now : Int) : List DeviceId → Gathered → Except ChatError Gathered
  | [], g => .ok g
  | peer :: rest, g =>
    match g.store.retention peer with
    | .error error => .error error
    | .ok r => gatherFrom group now rest
        ((g.store.rows peer).toList.foldl (fun g row => gather c group r now peer g row.2) g)

/-- By this device's clock, then by id; what cannot be dated comes first. -/
def stored (a b : DeviceId × ChatRecord) : Bool :=
  ((compare (a.2.ageBasis c) (b.2.ageBasis c)).then (compare a.2.id b.2.id)).isLE

def groupRows (now : Int) (group : String) :
    Except ChatError (ChatStore × List (DeviceId × ChatRecord)) :=
  (gatherFrom c group now s.peerNamespaces ⟨s, [], []⟩).map fun g =>
    (g.store, g.out.mergeSort (stored c))

def groupHistory (now : Int) (group : String) : Except ChatError (ChatStore × List ChatRecord) :=
  (s.groupRows c now group).map fun out => (out.1, out.2.map Prod.snd)

/-- The first queued file whose staged bytes are there, as `onDisk` finds. -/
def nextFileFor (onDisk : String → Bool) (now : Int) (peer : DeviceId) :
    Except ChatError (Option (OutboxEntry × StagedFile)) :=
  (s.outboxFor c now peer).map fun entries => entries.findSome? fun e =>
    if e.kind = .file then
      e.file.bind fun file => if onDisk file.stagedPath then some (e, file) else none
    else none

end ChatStore

structure SearchHit where
  peerId : DeviceId
  messageId : String
  timestamp : String
  /-- The age of the row, which hits are ordered by. -/
  instant : Option Int
  direction : Direction
  kind : Kind
  snippet : String
  group : Option String
  deriving DecidableEq

def SearchHit.before (c : Chrono) (a b : SearchHit) : Bool :=
  ((compare (b.instant.getD c.minUtc) (a.instant.getD c.minUtc)).then
    ((compare a.peerId b.peerId).then (compare a.messageId b.messageId))).isLT

namespace Search

def snippetChars : Nat := 120

def snippetLead : Nat := 24

section
variable (lower : Char → List Char)

def fold (text : List Char) : List Char := text.flatMap lower

def foldedStartsWith (hay needle : List Char) : Bool := needle.isPrefixOf (fold lower hay)

def findFolded (haystack needle : List Char) : Option Nat :=
  if needle = [] then none
  else (List.range haystack.length).find? fun i => foldedStartsWith lower (haystack.drop i) needle

def snippetOf (field : String) (needle : List Char) : Option String :=
  (findFolded lower field.toList needle).map fun position =>
    String.ofList ((field.toList.drop (position - snippetLead)).take snippetChars)

def hit (c : Chrono) (peer : DeviceId) (rec : ChatRecord) (needle : List Char) : Option SearchHit :=
  ((snippetOf lower rec.body needle).orElse fun _ =>
      rec.file.bind fun file => snippetOf lower file.name needle).map fun snippet =>
    { peerId := peer, messageId := rec.id, timestamp := rec.timestamp, instant := rec.ageBasis c,
      direction := rec.direction, kind := rec.kind, snippet := snippet, group := rec.group }

end

structure TopHits where
  hits : List SearchHit
  limit : Nat
  truncated : Bool
  deriving DecidableEq

def TopHits.push (c : Chrono) (top : TopHits) (hit : SearchHit) : TopHits :=
  let position := (top.hits.takeWhile (·.before c hit)).length
  if top.limit ≤ position then { top with truncated := true }
  else if top.limit < (top.hits.insertIdx position hit).length then
    { top with hits := (top.hits.insertIdx position hit).dropLast, truncated := true }
  else { top with hits := top.hits.insertIdx position hit }

structure Searched where
  store : ChatStore
  seenGroup : List String
  top : TopHits

variable (c : Chrono) (lower : Char → List Char)

def scan (needle : List Char) (peer : DeviceId) (w : Searched) (rec : ChatRecord) : Searched :=
  if rec.group.isSome && w.seenGroup.contains rec.id then w
  else
    { store := w.store
      seenGroup := if rec.group.isSome then rec.id :: w.seenGroup else w.seenGroup
      top := (hit lower c peer rec needle).elim w.top (w.top.push c) }

def searchFrom (clock : DeviceId → Int) (needle : List Char) :
    List DeviceId → Searched → Except ChatError Searched
  | [], w => .ok w
  | peer :: rest, w =>
    match w.store.records c (clock peer) peer true with
    | .error error => .error error
    | .ok (s, recs) =>
      searchFrom clock needle rest (recs.foldl (scan c lower needle peer) { w with store := s })

end Search

structure SearchResults where
  hits : List SearchHit
  truncated : Bool
  deriving DecidableEq

def ChatStore.search (c : Chrono) (lower : Char → List Char) (s : ChatStore) (clock : DeviceId → Int)
    (query : String) (limit : Nat) : Except ChatError (ChatStore × SearchResults) :=
  let needle := Search.fold lower (Groups.trim query).toList
  if needle = [] then .ok (s, ⟨[], false⟩)
  else (Search.searchFrom c lower clock needle s.peerNamespaces ⟨s, [], ⟨[], limit, false⟩⟩).map
    fun w => (w.store, ⟨w.top.hits, w.top.truncated⟩)

namespace ChatStore

def OpenFor (c : Chrono) (s : ChatStore) (now : Int) (peer : DeviceId) (basis : Option Int) : Prop :=
  ∃ r, s.retention peer = .ok r ∧ r.closedOn c basis now = false

variable {c : Chrono} {s : ChatStore}

theorem retention_congr {s' : ChatStore} (windows : s'.windows = s.windows) (peer : DeviceId) :
    s'.retention peer = s.retention peer := by
  rw [retention, retention, windows]

theorem openFor_congr {s' : ChatStore} (windows : s'.windows = s.windows) {now : Int}
    {peer : DeviceId} {basis : Option Int} :
    s'.OpenFor c now peer basis ↔ s.OpenFor c now peer basis := by
  rw [OpenFor, OpenFor, retention_congr windows]

/-- The loop shows rows that are open under the window it is given, and keeps all windows. -/
theorem shown_open (includeGroups : Bool) (r : Retention) (now : Int)
    (rows : List (String × Option ChatRecord)) (s : ChatStore) :
    (shown c includeGroups r now s rows).1.windows = s.windows ∧
      ∀ rec ∈ (shown c includeGroups r now s rows).2, rec.hasDisappeared c r now = false := by
  induction rows generalizing s with
  | nil => exact ⟨rfl, fun rec mem => absurd mem List.not_mem_nil⟩
  | cons row rows ih =>
    obtain ⟨key, _ | rec⟩ := row
    · exact ih s
    · rw [shown]
      split
      next => exact ih s
      next live =>
        split
        next => exact ih s
        next =>
          obtain ⟨windows, later⟩ := ih (s.withLanding rec).1
          refine ⟨windows.trans (s.outbox_withLanding rec).2, fun rec' mem => ?_⟩
          rcases List.mem_cons.mp mem with rfl | mem
          · rw [ChatRecord.hasDisappeared, ageBasis_withLanding]
            exact Bool.eq_false_iff.mpr live
          · exact later rec' mem

theorem records_open {now : Int} {peer : DeviceId} {includeGroups : Bool}
    {out : ChatStore × List ChatRecord} (h : s.records c now peer includeGroups = .ok out) :
    out.1.windows = s.windows ∧ ∀ rec ∈ out.2, s.OpenFor c now peer (rec.ageBasis c) := by
  rw [records] at h
  obtain ⟨r, window, rfl⟩ := Outcome.ok_of_map h
  obtain ⟨windows, live⟩ := shown_open (c := c) includeGroups r now (s.rows peer).toList s
  exact ⟨windows, fun rec mem => ⟨r, window, live rec mem⟩⟩

theorem get_open {now : Int} {peer : DeviceId} {id : String} {s' : ChatStore} {rec : ChatRecord}
    (h : s.get c now peer id = .ok (s', some rec)) : s.OpenFor c now peer (rec.ageBasis c) := by
  rw [get.eq_def] at h
  split at h
  · cases h
  · cases h
  · obtain ⟨r, window, h⟩ := Outcome.ok_of_map h
    split at h
    next => cases h
    next live =>
      cases h
      refine ⟨r, window, ?_⟩
      rw [ageBasis_withLanding]
      exact Bool.eq_false_iff.mpr live

def Gathered.Open (c : Chrono) (s : ChatStore) (now : Int) (g : Gathered) : Prop :=
  g.store.windows = s.windows ∧ ∀ row ∈ g.out, s.OpenFor c now row.1 (row.2.ageBasis c)

theorem gather_open {group : String} {r : Retention} {now : Int} {peer : DeviceId} {g : Gathered}
    (h : g.Open c s now) (window : s.retention peer = .ok r) (row : Option ChatRecord) :
    (gather c group r now peer g row).Open c s now := by
  cases row with
  | none => exact h
  | some rec =>
    rw [gather]
    split
    next => exact h
    next =>
      split
      next => exact h
      next live =>
        split
        next => exact h
        next =>
          refine ⟨(g.store.outbox_withLanding rec).2.trans h.1, fun row mem => ?_⟩
          rcases List.mem_append.mp mem with old | new
          · exact h.2 row old
          · rw [List.mem_singleton.mp new]
            refine ⟨r, window, ?_⟩
            rw [ageBasis_withLanding]
            exact Bool.eq_false_iff.mpr live

theorem gatherFrom_open {group : String} {now : Int} (peers : List DeviceId) {g out : Gathered}
    (h : g.Open c s now) (done : gatherFrom c group now peers g = .ok out) : out.Open c s now := by
  induction peers generalizing g with
  | nil => cases done; exact h
  | cons peer peers ih =>
    rw [gatherFrom] at done
    cases window : g.store.retention peer with
    | error error => rw [window] at done; cases done
    | ok r =>
      rw [window] at done
      refine ih ?_ done
      rw [retention_congr h.1] at window
      exact TransitionRun.invariant h (fun g row h => gather_open h window row.2) _

theorem groupRows_open {now : Int} {group : String} {out : ChatStore × List (DeviceId × ChatRecord)}
    (h : s.groupRows c now group = .ok out) :
    ∀ row ∈ out.2, s.OpenFor c now row.1 (row.2.ageBasis c) := by
  rw [groupRows] at h
  obtain ⟨g, gathered, rfl⟩ := Outcome.ok_of_map h
  intro row mem
  have start : Gathered.Open c s now ⟨s, [], []⟩ := ⟨rfl, fun _ mem => absurd mem List.not_mem_nil⟩
  exact (gatherFrom_open _ start gathered).2 row (List.mem_mergeSort.mp mem)

theorem outboxPending_open {now : Int} {out : List OutboxEntry} (h : s.outboxPending c now = .ok out) :
    ∀ e ∈ out, ∃ r, s.retention e.peerId = .ok r ∧ e.expired c r now = false := by
  intro e mem
  obtain ⟨_, r, _, window, live⟩ := (mem_outboxPending h e).mp mem
  exact ⟨r, window, live⟩

theorem nextFileFor_mem {onDisk : String → Bool} {now : Int} {peer : DeviceId} {e : OutboxEntry}
    {file : StagedFile} (h : s.nextFileFor c onDisk now peer = .ok (some (e, file))) :
    e.peerId = peer ∧ e.kind = .file ∧ ∃ out, s.outboxPending c now = .ok out ∧ e ∈ out := by
  rw [nextFileFor] at h
  obtain ⟨entries, listed, h⟩ := Outcome.ok_of_map h
  obtain ⟨e', mem, found⟩ := List.exists_of_findSome?_eq_some h
  obtain ⟨kind, found⟩ := (Option.ite_none_right_eq_some).mp found
  obtain ⟨file', _, found⟩ := Option.bind_eq_some_iff.mp found
  obtain ⟨_, found⟩ := (Option.ite_none_right_eq_some).mp found
  cases found
  obtain ⟨out, read, rfl⟩ := Outcome.ok_of_map listed
  obtain ⟨mem, own⟩ := List.mem_filter.mp mem
  exact ⟨of_decide_eq_true own, kind, out, read, mem⟩

end ChatStore

namespace Search
variable {c : Chrono} {lower : Char → List Char}

theorem hit_eq_some {peer : DeviceId} {rec : ChatRecord} {needle : List Char} {found : SearchHit}
    (h : hit lower c peer rec needle = some found) :
    found.peerId = peer ∧ found.instant = rec.ageBasis c := by
  obtain ⟨snippet, _, rfl⟩ := Option.map_eq_some_iff.mp h
  exact ⟨rfl, rfl⟩

/-- Every hit held is one held before or the one pushed. -/
theorem TopHits.mem_push {top : TopHits} {found other : SearchHit}
    (mem : other ∈ (top.push c found).hits) : other = found ∨ other ∈ top.hits := by
  have inserted : ∀ n, other ∈ top.hits.insertIdx n found → other = found ∨ other ∈ top.hits := by
    intro n mem
    exact List.eq_or_mem_of_mem_insertIdx mem
  rw [push] at mem
  split at mem
  · exact .inr mem
  · split at mem
    · exact inserted _ (List.mem_of_mem_dropLast mem)
    · exact inserted _ mem

/-- The hits held are open in their conversations when these were read. -/
def Searched.Open (c : Chrono) (s : ChatStore) (clock : DeviceId → Int) (w : Searched) : Prop :=
  w.store.windows = s.windows ∧
    ∀ found ∈ w.top.hits, s.OpenFor c (clock found.peerId) found.peerId found.instant

variable {s : ChatStore} {clock : DeviceId → Int} {needle : List Char}

theorem scan_open {peer : DeviceId} {w : Searched} (h : w.Open c s clock) {rec : ChatRecord}
    (live : s.OpenFor c (clock peer) peer (rec.ageBasis c)) :
    (scan c lower needle peer w rec).Open c s clock := by
  rw [scan]
  split
  · exact h
  · refine ⟨h.1, fun found mem => ?_⟩
    cases matched : hit lower c peer rec needle with
    | none => rw [matched] at mem; exact h.2 found mem
    | some new =>
      rw [matched] at mem
      rcases TopHits.mem_push mem with rfl | mem
      · obtain ⟨own, age⟩ := hit_eq_some matched
        rw [own, age]
        exact live
      · exact h.2 found mem

theorem foldl_scan_open {peer : DeviceId} (recs : List ChatRecord) {w : Searched}
    (h : w.Open c s clock) (live : ∀ rec ∈ recs, s.OpenFor c (clock peer) peer (rec.ageBasis c)) :
    (recs.foldl (scan c lower needle peer) w).Open c s clock := by
  induction recs generalizing w with
  | nil => exact h
  | cons rec recs ih =>
    exact ih (scan_open h (live rec List.mem_cons_self)) fun rec' mem =>
      live rec' (List.mem_cons_of_mem _ mem)

theorem searchFrom_open (peers : List DeviceId) {w out : Searched} (h : w.Open c s clock)
    (done : searchFrom c lower clock needle peers w = .ok out) : out.Open c s clock := by
  induction peers generalizing w with
  | nil => cases done; exact h
  | cons peer peers ih =>
    rw [searchFrom] at done
    cases read : w.store.records c (clock peer) peer true with
    | error error => rw [read] at done; cases done
    | ok found =>
      rw [read] at done
      obtain ⟨windows, live⟩ := ChatStore.records_open read
      have next : Searched.Open c s clock { w with store := found.1 } := ⟨windows.trans h.1, h.2⟩
      refine ih (foldl_scan_open found.2 next fun rec mem => ?_) done
      exact (ChatStore.openFor_congr h.1).mp (live rec mem)

end Search

theorem ChatStore.search_open {c : Chrono} {lower : Char → List Char} {s : ChatStore}
    {clock : DeviceId → Int} {query : String} {limit : Nat} {out : ChatStore × SearchResults}
    (h : s.search c lower clock query limit = .ok out) :
    ∀ found ∈ out.2.hits, s.OpenFor c (clock found.peerId) found.peerId found.instant := by
  rw [ChatStore.search] at h
  split at h
  · cases h
    exact fun _ mem => absurd mem List.not_mem_nil
  · obtain ⟨w, done, rfl⟩ := Outcome.ok_of_map h
    have start : Search.Searched.Open c s clock ⟨s, [], ⟨[], limit, false⟩⟩ :=
      ⟨rfl, fun _ mem => absurd mem List.not_mem_nil⟩
    exact (Search.searchFrom_open _ start done).2

end PeerBeam.Chat
