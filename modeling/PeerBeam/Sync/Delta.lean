import PeerBeam.Sync.ChunkReads

/-! Fetching one file by its chunks: what the serving side answers, how requests are
batched, and how the file is built beside its destination. -/
namespace PeerBeam.Sync
open Std

/-- The pieces `slice::chunks` cuts a list into: `n` at a time, the last one shorter. -/
def windowsFrom {α : Type*} (n : Nat) : (fuel : Nat) → List α → List (List α)
  | 0, _ => []
  | _ + 1, [] => []
  | fuel + 1, x :: xs => (x :: xs).take n :: windowsFrom n fuel ((x :: xs).drop n)

def windows {α : Type*} (n : Nat) (xs : List α) : List (List α) := windowsFrom n xs.length xs

structure ChunkMapResponse where
  path : WirePath
  chunks : List Chunk
  denied : Bool

structure ChunkData where
  hash : String
  bytes : Bytes

/-- A serving device, as far as one peer's requests reach it. -/
structure SyncHandler where
  mayBrowse : Bool
  mayFiles : Bool
  /-- The regular file that a path resolves to inside the shares. -/
  shares : WirePath → Option Bytes

section
variable (hash : Bytes → String)

def chunkFile (content : Bytes) : Option (List Chunk) :=
  if maxChunkable < content.length then none else some (split hash content)

def SyncHandler.chunkMap (h : SyncHandler) (path : WirePath) : ChunkMapResponse :=
  if !h.mayBrowse || !h.mayFiles then ⟨path, [], true⟩
  else
    let chunks := match h.shares path with
      | some content => (chunkFile hash content).getD []
      | none => []
    ⟨path, chunks, false⟩

def maxPerRequest : Nat := 64

def chunkData (content : Bytes) (chunks : List Chunk) (want : String) : Option ChunkData := do
  let c ← chunks.find? fun c => c.hash = want
  let bytes ← readRange content c.offset c.len
  pure ⟨want, bytes⟩

def SyncHandler.chunks (h : SyncHandler) (path : WirePath) (hashes : List String) : List ChunkData :=
  if !h.mayBrowse || !h.mayFiles then []
  else
    match h.shares path with
    | none => []
    | some content =>
      match chunkFile hash content with
      | none => []
      | some chunks => (hashes.take maxPerRequest).filterMap (chunkData content chunks)

/-- The peer of a session; its answers are dropped unless this side approved it. -/
structure Peer where
  handler : SyncHandler
  approved : Bool

def requestChunkMap (p : Peer) (path : WirePath) : Option ChunkMapResponse :=
  if p.approved then some (p.handler.chunkMap hash path) else none

abbrev Fetched := ExtTreeMap String Bytes compare

def insertAnswers (out : Fetched) (answers : List ChunkData) : Fetched :=
  answers.foldl (fun out d => out.insert d.hash d.bytes) out

def batch : Nat := 64

def requestChunks (p : Peer) (path : WirePath) (hashes : List String) : Fetched :=
  (windows batch hashes).foldl (fun out group =>
    let answers := if p.approved then p.handler.chunks hash path group else []
    insertAnswers out (answers.take group.length)) ∅

/-- The chunks this device already holds, and the reading back of one of them. -/
structure Pool where
  held : List String
  read : String → Option Bytes

/-- What the local disk lets the staging file do; `writes` at each length it reaches. -/
structure Disk where
  creates : Bool
  writes : Nat → Bool
  flushes : Bool
  renames : Bool

def Disk.working : Disk := ⟨true, fun _ => true, true, true⟩

def supply (fetched : Fetched) (pool : Pool) (want : String) : Option (Bytes × Nat) :=
  match fetched[want]? with
  | some bytes => some (bytes, 0)
  | none => (pool.read want).map fun bytes => (bytes, bytes.length)

/-- Append chunks to the staging file, each verified before it is written; with the
bytes reused so far. -/
def reassembleInto (disk : Disk) (supply : String → Option (Bytes × Nat)) :
    List Chunk → Bytes × Nat → Option (Bytes × Nat)
  | [], acc => some acc
  | c :: rest, (out, reuse) =>
    match supply c.hash with
    | none => none
    | some (bytes, saved) =>
      if bytes.length ≠ c.len then none
      else if hash bytes ≠ c.hash then none
      else if disk.writes out.length then reassembleInto disk supply rest (out ++ bytes, reuse + saved)
      else none

def fetchWindow : Nat := 64

def buildWindow (disk : Disk) (pool : Pool) (fetch : List String → Fetched) (acc : Bytes × Nat)
    (window : List Chunk) : Option (Bytes × Nat) :=
  let missing := (window.filter fun c => c.hash ∉ pool.held).map Chunk.hash
  let fetched := if missing = [] then ∅ else fetch missing
  reassembleInto hash disk (supply fetched pool) window acc

/-- Build the file beside its destination and move it there once it is whole: the bytes
reused, and what the destination holds afterwards. -/
def fetchStreamed (disk : Disk) (chunks : List Chunk) (pool : Pool) (fetch : List String → Fetched)
    (dest : Option Bytes) : Option Nat × Option Bytes :=
  if !disk.creates then (none, dest)
  else
    match (windows fetchWindow chunks).foldlM (buildWindow hash disk pool fetch) ([], 0) with
    | none => (none, dest)
    | some (out, reuse) => if disk.flushes && disk.renames then (some reuse, some out) else (none, dest)

def fetchByDelta (disk : Disk) (p : Peer) (pool : Pool) (path : WirePath) (dest : Option Bytes) :
    Option Nat × Option Bytes :=
  match requestChunkMap hash p path with
  | none => (none, dest)
  | some answer =>
    if answer.denied || answer.chunks.isEmpty then (none, dest)
    else fetchStreamed hash disk answer.chunks pool (requestChunks hash p path) dest

end

section Windows
variable {α : Type*} {n : Nat}

theorem flatten_windowsFrom (positive : 0 < n) {fuel : Nat} {xs : List α} (enough : xs.length ≤ fuel) :
    (windowsFrom n fuel xs).flatten = xs := by
  induction fuel generalizing xs with
  | zero => rw [List.length_eq_zero_iff.mp (Nat.le_zero.mp enough)]; rfl
  | succ fuel ih =>
    cases xs with
    | nil => rfl
    | cons x xs =>
      have shorter : ((x :: xs).drop n).length ≤ fuel := by
        rw [List.length_drop]
        omega
      rw [windowsFrom, List.flatten_cons, ih shorter, List.take_append_drop]

theorem flatten_windows (positive : 0 < n) (xs : List α) : (windows n xs).flatten = xs :=
  flatten_windowsFrom positive (Nat.le_refl _)

theorem length_le_of_mem_windowsFrom {fuel : Nat} {xs w : List α} (mem : w ∈ windowsFrom n fuel xs) :
    w.length ≤ n := by
  induction fuel generalizing xs with
  | zero => cases mem
  | succ fuel ih =>
    cases xs with
    | nil => cases mem
    | cons x xs =>
      rcases List.mem_cons.mp mem with rfl | later
      · exact List.length_take_le ..
      · exact ih later

end Windows

section
variable {hash : Bytes → String}

def piece (content : Bytes) (c : Chunk) : Bytes := (content.drop c.offset).take c.len

/-- The chunks of a file, put together, are the file. -/
theorem flatMap_piece_splitFrom {content data : Bytes} {fuel start : Nat} (at_start : content.drop start = data)
    (enough : data.length ≤ fuel) : (splitFrom hash fuel start data).flatMap (piece content) = data := by
  induction fuel generalizing start data with
  | zero => rw [List.length_eq_zero_iff.mp (Nat.le_zero.mp enough)]; rfl
  | succ fuel ih =>
    cases data with
    | nil => rfl
    | cons b rest =>
      have bounds := nextBoundary_bounds (List.cons_ne_nil b rest)
      have next : content.drop (start + nextBoundary (b :: rest)) = (b :: rest).drop (nextBoundary (b :: rest)) := by
        rw [← List.drop_drop, at_start]
      have shorter : ((b :: rest).drop (nextBoundary (b :: rest))).length ≤ fuel := by
        rw [List.length_drop]
        omega
      rw [splitFrom, List.flatMap_cons, ih next shorter, piece, at_start, List.take_append_drop]

theorem flatMap_piece_split (content : Bytes) : (split hash content).flatMap (piece content) = content :=
  flatMap_piece_splitFrom rfl (Nat.le_refl _)

theorem piece_of_mem_split {content : Bytes} {c : Chunk} (mem : c ∈ split hash content) :
    readRange content c.offset c.len = some (piece content c) ∧
      hash (piece content c) = c.hash ∧ (piece content c).length = c.len := by
  obtain ⟨skip, offset, fits, named⟩ := mem_splitFrom mem
  rw [Nat.zero_add] at offset
  subst offset
  refine ⟨if_pos fits, named.symm, ?_⟩
  rw [piece, List.length_take, List.length_drop]
  omega

/-- A requested chunk of the file is answered under its own name. -/
theorem chunkData_of_mem {content : Bytes} {c : Chunk} (mem : c ∈ split hash content) :
    ∃ bytes, chunkData content (split hash content) c.hash = some ⟨c.hash, bytes⟩ ∧ hash bytes = c.hash := by
  have found : ((split hash content).find? fun d => d.hash = c.hash).isSome :=
    List.find?_isSome.mpr ⟨c, mem, by simp⟩
  obtain ⟨d, eq⟩ := Option.isSome_iff_exists.mp found
  have same : d.hash = c.hash := by simpa using List.find?_some eq
  obtain ⟨range, named, -⟩ := piece_of_mem_split (List.mem_of_find?_eq_some eq)
  exact ⟨piece content d, by simp [chunkData, eq, range], named.trans same⟩

def Named (hash : Bytes → String) (out : Fetched) : Prop := ∀ want bytes, out[want]? = some bytes → hash bytes = want

theorem insertAnswers_spec {out : Fetched} {answers : List ChunkData} (named : Named hash out)
    (honest : ∀ d ∈ answers, hash d.bytes = d.hash) :
    Named hash (insertAnswers out answers) ∧
      ∀ want, out[want]?.isSome ∨ want ∈ answers.map ChunkData.hash → (insertAnswers out answers)[want]?.isSome := by
  induction answers generalizing out with
  | nil => exact ⟨named, fun want h => h.resolve_right List.not_mem_nil⟩
  | cons d answers ih =>
    have step : Named hash (out.insert d.hash d.bytes) := by
      intro want bytes got
      rw [ExtTreeMap.getElem?_insert] at got
      split at got
      · next same =>
        cases got
        rw [honest d (List.mem_cons_self ..)]
        exact Std.compare_eq_iff_eq.mp same
      · exact named want bytes got
    obtain ⟨names, kept⟩ := ih step fun d' mem => honest d' (List.mem_cons_of_mem _ mem)
    refine ⟨names, fun want h => kept want ?_⟩
    rw [ExtTreeMap.getElem?_insert]
    split
    · exact .inl rfl
    · next other =>
      rcases h with h | h
      · exact .inl h
      · rcases List.mem_cons.mp h with rfl | later
        · exact absurd (Std.compare_eq_iff_eq.mpr rfl) other
        · exact .inr later

def SyncHandler.Serves (h : SyncHandler) (path : WirePath) (content : Bytes) : Prop :=
  h.mayBrowse ∧ h.mayFiles ∧ h.shares path = some content ∧ content.length ≤ maxChunkable

/-- Asked for chunks of the file, at most a request's worth, the handler answers each. -/
theorem chunks_of_serves {h : SyncHandler} {path : WirePath} {content : Bytes} (serves : h.Serves path content)
    {hashes : List String} (fits : hashes.length ≤ maxPerRequest)
    (of_file : ∀ want ∈ hashes, ∃ c ∈ split hash content, c.hash = want) :
    (h.chunks hash path hashes).map ChunkData.hash = hashes ∧
      ∀ d ∈ h.chunks hash path hashes, hash d.bytes = d.hash := by
  obtain ⟨browse, files, served, small⟩ := serves
  have eq : h.chunks hash path hashes = hashes.filterMap (chunkData content (split hash content)) := by
    simp only [SyncHandler.chunks, browse, files, served, chunkFile, if_neg (Nat.not_lt.mpr small),
      List.take_of_length_le fits]
    rfl
  rw [eq]
  clear eq fits
  induction hashes with
  | nil => exact ⟨rfl, by simp⟩
  | cons want hashes ih =>
    obtain ⟨c, mem, rfl⟩ := of_file want (List.mem_cons_self ..)
    obtain ⟨bytes, answer, named⟩ := chunkData_of_mem mem
    obtain ⟨names, honest⟩ := ih fun w later => of_file w (List.mem_cons_of_mem _ later)
    rw [List.filterMap_cons, answer]
    refine ⟨by rw [List.map_cons, names], ?_⟩
    intro d mem
    rcases List.mem_cons.mp mem with rfl | later
    · exact named
    · exact honest d later

/-- Batches of chunks of the file add every chunk they ask for to whatever has been
collected before. -/
theorem foldl_batches_spec {p : Peer} {path : WirePath} {content : Bytes} (approved : p.approved)
    (serves : p.handler.Serves path content) (groups : List (List String)) (out : Fetched)
    (short : ∀ g ∈ groups, g.length ≤ batch)
    (known : ∀ want ∈ groups.flatten, ∃ c ∈ split hash content, c.hash = want) (named : Named hash out) :
    let out' := groups.foldl (fun out group =>
      let answers := if p.approved then p.handler.chunks hash path group else []
      insertAnswers out (answers.take group.length)) out
    Named hash out' ∧ ∀ want, out[want]?.isSome ∨ want ∈ groups.flatten → out'[want]?.isSome := by
  induction groups generalizing out with
  | nil => exact ⟨named, fun want h => h.resolve_right List.not_mem_nil⟩
  | cons group groups ih =>
    rw [List.flatten_cons] at known
    obtain ⟨names, honest⟩ := chunks_of_serves serves (short group (List.mem_cons_self ..))
      fun want mem => known want (List.mem_append_left _ mem)
    have all : (p.handler.chunks hash path group).take group.length = p.handler.chunks hash path group := by
      apply List.take_of_length_le
      rw [← List.length_map ChunkData.hash, names]
    obtain ⟨named', kept⟩ := insertAnswers_spec named honest
    have later := ih (insertAnswers out (p.handler.chunks hash path group))
      (fun g mem => short g (List.mem_cons_of_mem _ mem))
      (fun want mem => known want (List.mem_append_right _ mem)) named'
    simp only [List.foldl_cons, if_pos approved, all] at later ⊢
    refine ⟨later.1, fun want h => later.2 want ?_⟩
    rcases h with h | h
    · exact .inl (kept want (.inl h))
    · rcases List.mem_append.mp h with here | there
      · exact .inl (kept want (.inr (names.symm ▸ here)))
      · exact .inr there

/-- The batches bring every requested chunk of the file, and nothing under a wrong name. -/
theorem requestChunks_spec {p : Peer} {path : WirePath} {content : Bytes} (approved : p.approved)
    (serves : p.handler.Serves path content) {hashes : List String}
    (of_file : ∀ want ∈ hashes, ∃ c ∈ split hash content, c.hash = want) :
    Named hash (requestChunks hash p path hashes) ∧
      ∀ want ∈ hashes, (requestChunks hash p path hashes)[want]?.isSome := by
  have flat := flatten_windows (n := batch) (by decide) hashes
  have start : Named hash (∅ : Fetched) := by
    intro want bytes got
    simp at got
  obtain ⟨named, kept⟩ := foldl_batches_spec approved serves (windows batch hashes) ∅
    (fun g mem => length_le_of_mem_windowsFrom mem) (by rwa [flat]) start
  exact ⟨named, fun want mem => kept want (.inr (flat.symm ▸ mem))⟩

/-- Every chunk the pool lists can be read back under its name. -/
def Pool.Truthful (hash : Bytes → String) (pool : Pool) : Prop :=
  ∀ want ∈ pool.held, ∃ bytes, pool.read want = some bytes ∧ hash bytes = want

/-- The pool that a pass uses: the chunk maps of its own index. -/
def indexPool (sc : Scanner) (ix : SyncIndex) (d : Folder) : Pool := ⟨ix.chunks.haves, PeerBeam.Sync.read sc ix d⟩

theorem indexPool_truthful_iff (sc : Scanner) (s : Scanned) :
    (indexPool sc s.index s.folder).Truthful sc.hash ↔ EveryChunkReads sc s := Iff.rfl

/-- Where every chunk is supplied, a working disk ends up with the pieces in order. -/
theorem reassembleInto_pieces {supply : String → Option (Bytes × Nat)} {content : Bytes} {chunks : List Chunk}
    (of_file : ∀ c ∈ chunks, c ∈ split hash content)
    (supplied : ∀ c ∈ chunks, ∃ saved, supply c.hash = some (piece content c, saved)) (out : Bytes) (reuse : Nat) :
    ∃ reuse', reassembleInto hash .working supply chunks (out, reuse) =
      some (out ++ chunks.flatMap (piece content), reuse') := by
  induction chunks generalizing out reuse with
  | nil => exact ⟨reuse, by simp [reassembleInto]⟩
  | cons c chunks ih =>
    obtain ⟨saved, eq⟩ := supplied c (List.mem_cons_self ..)
    obtain ⟨-, named, length⟩ := piece_of_mem_split (of_file c (List.mem_cons_self ..))
    obtain ⟨reuse', rest⟩ := ih (fun d mem => of_file d (List.mem_cons_of_mem _ mem))
      (fun d mem => supplied d (List.mem_cons_of_mem _ mem)) (out ++ piece content c) (reuse + saved)
    refine ⟨reuse', ?_⟩
    rw [List.flatMap_cons, ← List.append_assoc, ← rest]
    simp [reassembleInto, eq, length, named, Disk.working]

variable (injective : Function.Injective hash) {p : Peer} {path : WirePath} {content : Bytes} {pool : Pool}
include injective

/-- A window's chunks are all supplied: those the pool holds from the pool, the others
from the answers. -/
theorem buildWindow_pieces (approved : p.approved) (serves : p.handler.Serves path content)
    (truthful : pool.Truthful hash) {window : List Chunk} (of_file : ∀ c ∈ window, c ∈ split hash content)
    (out : Bytes) (reuse : Nat) :
    ∃ reuse', buildWindow hash .working pool (requestChunks hash p path) (out, reuse) window =
      some (out ++ window.flatMap (piece content), reuse') := by
  unfold buildWindow
  apply reassembleInto_pieces of_file
  intro c mem
  obtain ⟨-, named, -⟩ := piece_of_mem_split (of_file c mem)
  have missing_of_file : ∀ want ∈ (window.filter fun c => c.hash ∉ pool.held).map Chunk.hash,
      ∃ c ∈ split hash content, c.hash = want := by
    intro want asked
    obtain ⟨d, kept, rfl⟩ := List.mem_map.mp asked
    exact ⟨d, of_file d (List.mem_filter.mp kept).1, rfl⟩
  obtain ⟨names, answered⟩ := requestChunks_spec approved serves missing_of_file
  set missing := (window.filter fun c => c.hash ∉ pool.held).map Chunk.hash
  set fetched := if missing = [] then ∅ else requestChunks hash p path missing with fetched_eq
  have honest : Named hash fetched := by
    rw [fetched_eq]
    split
    · intro want bytes got
      simp at got
    · exact names
  unfold supply
  cases got : fetched[c.hash]? with
  | some bytes => exact ⟨0, by rw [injective ((honest _ _ got).trans named.symm)]⟩
  | none =>
    -- a chunk that is neither held nor fetched would have been asked for
    have held : c.hash ∈ pool.held := by
      by_contra absent
      have asked : c.hash ∈ missing :=
        List.mem_map.mpr ⟨c, List.mem_filter.mpr ⟨mem, by simpa using absent⟩, rfl⟩
      have nonempty : missing ≠ [] := List.ne_nil_of_mem asked
      have := answered c.hash asked
      rw [fetched_eq, if_neg nonempty] at got
      rw [got] at this
      cases this
    obtain ⟨bytes, read, same⟩ := truthful c.hash held
    refine ⟨bytes.length, ?_⟩
    rw [read, injective (same.trans named.symm)]
    rfl

theorem foldlM_windows (approved : p.approved) (serves : p.handler.Serves path content)
    (truthful : pool.Truthful hash) (ws : List (List Chunk))
    (of_file : ∀ c ∈ ws.flatten, c ∈ split hash content) (out : Bytes) (reuse : Nat) :
    ∃ reuse', ws.foldlM (buildWindow hash .working pool (requestChunks hash p path)) (out, reuse) =
      some (out ++ ws.flatten.flatMap (piece content), reuse') := by
  induction ws generalizing out reuse with
  | nil => exact ⟨reuse, by simp⟩
  | cons w ws ih =>
    rw [List.flatten_cons] at of_file
    obtain ⟨mid, window⟩ := buildWindow_pieces injective approved serves truthful
      (fun c mem => of_file c (List.mem_append_left _ mem)) out reuse
    obtain ⟨reuse', rest⟩ := ih (fun c mem => of_file c (List.mem_append_right _ mem))
      (out ++ w.flatMap (piece content)) mid
    refine ⟨reuse', ?_⟩
    rw [List.foldlM_cons, window, List.flatten_cons, List.flatMap_append, ← List.append_assoc, ← rest]
    rfl

/-- The streaming half alone is complete for every length, the empty file included. -/
theorem fetchStreamed_complete (approved : p.approved) (serves : p.handler.Serves path content)
    (truthful : pool.Truthful hash) (dest : Option Bytes) :
    ∃ reuse, fetchStreamed hash .working (split hash content) pool (requestChunks hash p path) dest =
      (some reuse, some content) := by
  have flat := flatten_windows (n := fetchWindow) (by decide) (split hash content)
  obtain ⟨reuse, built⟩ := foldlM_windows injective approved serves truthful
    (windows fetchWindow (split hash content)) (by simp [flat]) [] 0
  rw [flat, flatMap_piece_split, List.nil_append] at built
  refine ⟨reuse, ?_⟩
  unfold fetchStreamed
  rw [built]
  rfl

/-- A fetch by delta of a file that the peer serves brings the file, from any truthful
pool, exactly when the file is not empty: an empty chunk map is taken for a refusal, and
the destination stays as it was. -/
theorem delta_complete_iff (approved : p.approved) (serves : p.handler.Serves path content)
    (truthful : pool.Truthful hash) (dest : Option Bytes) :
    (∃ reuse, fetchByDelta hash .working p pool path dest = (some reuse, some content)) ↔ content ≠ [] := by
  obtain ⟨browse, files, served, small⟩ := serves
  have answer : requestChunkMap hash p path = some ⟨path, split hash content, false⟩ := by
    simp only [requestChunkMap, approved, SyncHandler.chunkMap, browse, files, served, chunkFile,
      if_neg (Nat.not_lt.mpr small)]
    rfl
  unfold fetchByDelta
  rw [answer]
  cases content with
  | nil =>
    have refused : ¬ ∃ reuse, ((none, dest) : Option Nat × Option Bytes) = (some reuse, some []) := by simp
    exact iff_of_false refused (by simp)
  | cons b rest =>
    have nonempty : (split hash (b :: rest)).isEmpty = false := rfl
    obtain ⟨reuse, complete⟩ := fetchStreamed_complete injective approved ⟨browse, files, served, small⟩ truthful dest
    refine iff_of_true ⟨reuse, ?_⟩ (by simp)
    simpa [nonempty] using complete

end

private def sharing (content : Bytes) : Peer := ⟨⟨true, true, fun _ => some content⟩, true⟩

private def emptyPool : Pool := ⟨[], fun _ => none⟩

private theorem emptyPool_truthful : emptyPool.Truthful digest := fun _ mem => absurd mem List.not_mem_nil

private theorem sharing_serves {content : Bytes} (small : content.length ≤ maxChunkable) :
    (sharing content).handler.Serves ['f'] content := ⟨rfl, rfl, rfl, small⟩

theorem delta_complete_one_byte :
    ∃ reuse, fetchByDelta digest .working (sharing [120]) emptyPool ['f'] none = (some reuse, some [120]) :=
  (delta_complete_iff digest_injective rfl (sharing_serves (by decide)) emptyPool_truthful none).mpr (by decide)

/-- The empty file is served as a map without chunks, which the asking side refuses. -/
theorem empty_file_not_fetched :
    Function.Injective digest ∧ (sharing []).handler.Serves ['f'] [] ∧ emptyPool.Truthful digest ∧
      ¬ ∃ reuse, fetchByDelta digest .working (sharing []) emptyPool ['f'] none = (some reuse, some []) := by
  refine ⟨digest_injective, sharing_serves (by decide), emptyPool_truthful, ?_⟩
  have refused : fetchByDelta digest .working (sharing []) emptyPool ['f'] none = (none, none) := by decide +kernel
  rw [refused]
  simp

end PeerBeam.Sync
