import PeerBeam.Session.Frame
import PeerBeam.Sync.Delta
import PeerBeam.Sync.Serving
import PeerBeam.Trust.Record

/-! The sync channel's dispatcher: what a frame from the bound peer makes it answer and what it
hands on, and how much of the shares a peer's answers depend on. -/
namespace PeerBeam.Sync
open Session (SessionFrame SessionError MessageType)
open Trust (Lookup Permission may isApproved isApproved_of_may)

def msgManifestRequest : MessageType := 1
def msgManifest : MessageType := 2
def msgFileRequest : MessageType := 3
def msgChunkmapRequest : MessageType := 4
def msgChunkmap : MessageType := 5
def msgChunkRequest : MessageType := 6
def msgChunkData : MessageType := 7

structure ChunkRequest where
  path : WirePath
  hashes : List String

/-- How a payload reads as each kind of message, or the reader's complaint. -/
structure Wire where
  manifestRequest : Bytes → Except String WirePath
  manifest : Bytes → Except String Manifest
  fileRequest : Bytes → Except String WirePath
  chunkMapRequest : Bytes → Except String WirePath
  chunkMap : Bytes → Except String ChunkMapResponse
  chunkRequest : Bytes → Except String ChunkRequest
  chunkData : Bytes → Except String ChunkData

def fromFrame {α : Type} (id : MessageType) (read : Bytes → Except String α) (f : SessionFrame) :
    Except String α :=
  if f.messageType ≠ id then
    let got := f.messageType.toNat
    .error s!"unexpected sync message type {got}"
  else
    match read f.payload with
    | .ok m => .ok m
    | .error e => .error s!"sync serialization: {e}"

structure Host where
  /-- Where a peer's path leads inside the shares, and what stands there. -/
  resolve : WirePath → Option (String × Node)
  /-- Whether the file at a real path can be read. -/
  readable : String → Bool

def Host.node (host : Host) (path : WirePath) : Option Node := (host.resolve path).map (·.2)

def Host.contents (host : Host) (path : WirePath) : Option Bytes :=
  match host.resolve path with
  | some (real, .file file) => if host.readable real then some file.bytes else none
  | _ => none

inductive Reply where
  | manifest (m : Manifest)
  | file (real : String) (file : File)
  | chunkMap (m : ChunkMapResponse)
  | chunkData (d : ChunkData)

/-- The handler between frames: the peer it is bound to, and what it handed to its sinks. -/
structure HandlerState where
  peer : Option Trust.DeviceId
  incoming : List Manifest
  incomingChunkMap : List ChunkMapResponse
  incomingChunk : List ChunkData

structure Arrival where
  frame : SessionFrame
  lookup : Trust.DeviceId → Lookup
  now : Int

structure Reaction where
  result : Except SessionError Unit
  sent : List Reply

section
variable (wire : Wire) (hash : Bytes → String)

def onRequest {α : Type} (request : Except String α) (answer : α → List Reply) : Reaction :=
  match request with
  | .error e => ⟨.error (.frameDecode e), []⟩
  | .ok m => ⟨.ok (), answer m⟩

def onAnswer {α : Type} (approved : Bool) (answer : Except String α) (state : HandlerState)
    (hand : α → HandlerState) : HandlerState :=
  if approved then
    match answer with
    | .ok m => hand m
    | .error _ => state
  else state

def sendFile (mayBrowse mayFiles : Bool) (host : Host) (path : WirePath) : List Reply :=
  if !mayBrowse || !mayFiles then []
  else
    match host.resolve path with
    | some (real, .file file) => [.file real file]
    | _ => []

def handle (host : Host) (s : HandlerState) (a : Arrival) : HandlerState × Reaction :=
  match s.peer with
  | none => (s, ⟨.error (.frameDecode "sync peer not bound"), []⟩)
  | some peer =>
    let mayBrowse := may (a.lookup peer) a.now .browse
    let mayFiles := may (a.lookup peer) a.now .files
    let approved := isApproved (a.lookup peer) a.now
    let server : SyncHandler := ⟨mayBrowse, mayFiles, host.contents⟩
    let id := a.frame.messageType
    if id = msgManifest then
      (onAnswer approved (fromFrame id wire.manifest a.frame) s
        fun m => { s with incoming := s.incoming ++ [m] }, ⟨.ok (), []⟩)
    else if id = msgManifestRequest then
      (s, onRequest (fromFrame id wire.manifestRequest a.frame) fun path =>
        [.manifest (answerManifestRequest mayBrowse (host.node path) path)])
    else if id = msgFileRequest then
      (s, onRequest (fromFrame id wire.fileRequest a.frame) (sendFile mayBrowse mayFiles host))
    else if id = msgChunkmapRequest then
      (s, onRequest (fromFrame id wire.chunkMapRequest a.frame) fun path =>
        [.chunkMap (server.chunkMap hash path)])
    else if id = msgChunkRequest then
      (s, onRequest (fromFrame id wire.chunkRequest a.frame) fun r =>
        (server.chunks hash r.path r.hashes).map .chunkData)
    else if id = msgChunkmap then
      (onAnswer approved (fromFrame id wire.chunkMap a.frame) s
        fun m => { s with incomingChunkMap := s.incomingChunkMap ++ [m] }, ⟨.ok (), []⟩)
    else if id = msgChunkData then
      (onAnswer approved (fromFrame id wire.chunkData a.frame) s
        fun d => { s with incomingChunk := s.incomingChunk ++ [d] }, ⟨.ok (), []⟩)
    else (s, ⟨.ok (), []⟩)

/-- The reactions to a sequence of frames, each arriving at the shares as they are then. -/
def reactions (s : HandlerState) : List (Host × Arrival) → List Reaction
  | [] => []
  | (host, a) :: rest =>
    let out := handle wire hash host s a
    out.2 :: reactions out.1 rest

def stateAfter (s : HandlerState) (arrivals : List (Host × Arrival)) : HandlerState :=
  arrivals.foldl (fun s x => (handle wire hash x.1 s x.2).1) s

end

/-- The bound peer does not have the permission when the frame arrives. -/
def Arrival.Lacks (a : Arrival) (peer : Option Trust.DeviceId) (p : Permission) : Prop :=
  ∀ d, peer = some d → may (a.lookup d) a.now p = false

def Arrival.Unapproved (a : Arrival) (peer : Option Trust.DeviceId) : Prop :=
  ∀ d, peer = some d → isApproved (a.lookup d) a.now = false

/-- Two devices whose manifests cannot be told apart. -/
def SameListing (host₁ host₂ : Host) : Prop :=
  ∀ path, build (host₁.node path) path = build (host₂.node path) path

section
variable {wire : Wire} {hash : Bytes → String} {s : HandlerState} {a : Arrival}

/-- The shares never reach the handler's state. -/
theorem handle_state (host₁ host₂ : Host) :
    (handle wire hash host₁ s a).1 = (handle wire hash host₂ s a).1 := by
  rw [handle, handle]
  cases s.peer with
  | none => rfl
  | some peer =>
    dsimp only
    split
    · rfl
    iterate 6
      split
      · rfl
    rfl

theorem onAnswer_peer {α : Type} {approved : Bool} {answer : Except String α}
    {hand : α → HandlerState} (kept : ∀ m, (hand m).peer = s.peer) :
    (onAnswer approved answer s hand).peer = s.peer := by
  rw [onAnswer.eq_def]
  split
  · split
    · exact kept _
    · rfl
  · rfl

theorem handle_peer (host : Host) : (handle wire hash host s a).1.peer = s.peer := by
  rw [handle]
  split
  · rfl
  · dsimp only
    split
    · exact onAnswer_peer fun _ => rfl
    iterate 4
      split
      · rfl
    split
    · exact onAnswer_peer fun _ => rfl
    split
    · exact onAnswer_peer fun _ => rfl
    rfl

/-- A frame from a peer this side has not approved leaves the handler as it was. -/
theorem handle_unapproved (host : Host) (unapproved : a.Unapproved s.peer) :
    (handle wire hash host s a).1 = s := by
  rw [handle]
  split
  · rfl
  · next peer bound =>
    have rejected := unapproved peer bound
    simp only [onAnswer, rejected, Bool.false_eq_true, if_false]
    split
    · rfl
    iterate 6
      split
      · rfl
    rfl

section
variable {mayBrowse mayFiles : Bool} (refused : mayBrowse = false ∨ mayFiles = false)
include refused

/-- Without a grant every file and chunk request has one answer. -/
theorem sendFile_refused (host : Host) (path : WirePath) :
    sendFile mayBrowse mayFiles host path = [] := by
  rw [sendFile.eq_def]
  rcases refused with rfl | rfl <;> simp

theorem chunkMap_refused (shares : WirePath → Option Bytes) (path : WirePath) :
    SyncHandler.chunkMap hash ⟨mayBrowse, mayFiles, shares⟩ path = ⟨path, [], true⟩ := by
  rw [SyncHandler.chunkMap]
  rcases refused with rfl | rfl <;> simp

theorem chunks_refused (shares : WirePath → Option Bytes) (path : WirePath) (hashes : List String) :
    SyncHandler.chunks hash ⟨mayBrowse, mayFiles, shares⟩ path hashes = [] := by
  rw [SyncHandler.chunks]
  rcases refused with rfl | rfl <;> simp

end

/-- Where a grant is missing, only the listing can make a difference to the answer. -/
theorem handle_refused (host₁ host₂ : Host)
    (refused : ∀ d, s.peer = some d →
      may (a.lookup d) a.now .browse = false ∨ may (a.lookup d) a.now .files = false)
    (listing : a.frame.messageType = msgManifestRequest → ∀ d path, s.peer = some d →
      answerManifestRequest (may (a.lookup d) a.now .browse) (host₁.node path) path =
      answerManifestRequest (may (a.lookup d) a.now .browse) (host₂.node path) path) :
    (handle wire hash host₁ s a).2 = (handle wire hash host₂ s a).2 := by
  rw [handle, handle]
  cases bound : s.peer with
  | none => rfl
  | some peer =>
    have refused := refused peer bound
    dsimp only
    split
    · rfl
    split
    · next isRequest =>
      have same := fun path => listing isRequest peer path bound
      simp only [same]
    split
    · simp only [onRequest, sendFile_refused refused]
    split
    · simp only [chunkMap_refused refused]
    split
    · simp only [chunks_refused refused]
    split
    · rfl
    split
    · rfl
    rfl

theorem handle_without_browse (host₁ host₂ : Host) (lacks : a.Lacks s.peer .browse) :
    (handle wire hash host₁ s a).2 = (handle wire hash host₂ s a).2 := by
  apply handle_refused host₁ host₂ fun d bound => .inl (lacks d bound)
  intro _ d path bound
  rw [lacks d bound]
  rfl

theorem handle_without_files (host₁ host₂ : Host) (lacks : a.Lacks s.peer .files)
    (listing : a.frame.messageType ≠ msgManifestRequest ∨ SameListing host₁ host₂) :
    (handle wire hash host₁ s a).2 = (handle wire hash host₂ s a).2 := by
  apply handle_refused host₁ host₂ fun d bound => .inr (lacks d bound)
  intro isRequest d path _
  rcases listing with other | same
  · exact absurd isRequest other
  · rw [answerManifestRequest, answerManifestRequest, same path]

end

/-- The same frames under the same trust, arriving at two devices whose shares differ. -/
abbrev TwoRuns := List (Host × Host × Arrival)

def TwoRuns.left (run : TwoRuns) : List (Host × Arrival) := run.map fun x => (x.1, x.2.2)

def TwoRuns.right (run : TwoRuns) : List (Host × Arrival) := run.map fun x => (x.2.1, x.2.2)

section
variable (wire : Wire) (hash : Bytes → String)

theorem stateAfter_same (s : HandlerState) (run : TwoRuns) :
    stateAfter wire hash s run.left = stateAfter wire hash s run.right := by
  induction run generalizing s with
  | nil => rfl
  | cons x run ih =>
    show stateAfter wire hash (handle wire hash x.1 s x.2.2).1 (TwoRuns.left run) =
      stateAfter wire hash (handle wire hash x.2.1 s x.2.2).1 (TwoRuns.right run)
    rw [handle_state x.1 x.2.1]
    exact ih _

theorem stateAfter_peer (s : HandlerState) (arrivals : List (Host × Arrival)) :
    (stateAfter wire hash s arrivals).peer = s.peer := by
  induction arrivals generalizing s with
  | nil => rfl
  | cons x arrivals ih => exact (ih _).trans (handle_peer x.1)

/-- Each reaction is the handler's in the state the frames before it left. -/
theorem getElem?_reactions (s : HandlerState) (arrivals : List (Host × Arrival)) (i : Nat) :
    (reactions wire hash s arrivals)[i]? = arrivals[i]?.map fun x =>
      (handle wire hash x.1 (stateAfter wire hash s (arrivals.take i)) x.2).2 := by
  induction arrivals generalizing s i with
  | nil => rfl
  | cons x arrivals ih =>
    cases i with
    | zero => rfl
    | succ i => exact ih _ i

/-- Two devices react alike to a frame to which their handlers would in every state that has the
same peer. -/
theorem reaction_same {s : HandlerState} {run : TwoRuns} {i : Nat} {x : Host × Host × Arrival}
    (arrives : run[i]? = some x)
    (same : ∀ s', s'.peer = s.peer →
      (handle wire hash x.1 s' x.2.2).2 = (handle wire hash x.2.1 s' x.2.2).2) :
    (reactions wire hash s run.left)[i]? = (reactions wire hash s run.right)[i]? := by
  rw [getElem?_reactions, getElem?_reactions, TwoRuns.left, TwoRuns.right, List.getElem?_map,
    List.getElem?_map, arrives, ← List.map_take, ← List.map_take]
  have before := stateAfter_same wire hash s (run.take i)
  rw [TwoRuns.left, TwoRuns.right] at before
  rw [← before]
  exact congrArg some (same _ (stateAfter_peer wire hash s _))

/-- For every two devices, whatever they share, and every sequence of frames: while the peer may
not browse, it is sent the same; while it may not have files, it is sent the same in answer to
everything but a manifest request, and to that too if the listings are the same; and a frame from
a peer that is not approved leaves the handler and its sinks as they were. -/
theorem sync_answers_confined (s : HandlerState) (run : TwoRuns) :
    ((∀ x ∈ run, x.2.2.Lacks s.peer .browse) →
      reactions wire hash s run.left = reactions wire hash s run.right) ∧
    (∀ (i : Nat) (x : Host × Host × Arrival), run[i]? = some x → x.2.2.Lacks s.peer .files →
      (x.2.2.frame.messageType ≠ msgManifestRequest ∨ SameListing x.1 x.2.1) →
      (reactions wire hash s run.left)[i]? = (reactions wire hash s run.right)[i]?) ∧
    ∀ pre x post, run = pre ++ x :: post → x.2.2.Unapproved s.peer →
      stateAfter wire hash s (TwoRuns.left (pre ++ [x])) =
        stateAfter wire hash s (TwoRuns.left pre) := by
  refine ⟨fun lacks => ?_, fun i x arrives lacks listing => ?_, fun pre x post _ unapproved => ?_⟩
  · apply List.ext_getElem?
    intro i
    cases arrives : run[i]? with
    | none =>
      rw [getElem?_reactions, getElem?_reactions, TwoRuns.left, TwoRuns.right, List.getElem?_map,
        List.getElem?_map, arrives]
      rfl
    | some x =>
      apply reaction_same wire hash arrives
      intro s' bound
      apply handle_without_browse
      rw [bound]
      exact lacks x (List.mem_of_getElem? arrives)
  · apply reaction_same wire hash arrives
    intro s' bound
    apply handle_without_files _ _ _ listing
    rw [bound]
    exact lacks
  · rw [TwoRuns.left, List.map_append, stateAfter, List.foldl_append]
    apply handle_unapproved
    have bound := stateAfter_peer wire hash s (TwoRuns.left pre)
    rw [stateAfter, TwoRuns.left] at bound
    rw [bound]
    exact unapproved

end

/-- Reads one request, for the share `d`. -/
private def docsRequest : Bytes := [123, 34, 112, 97, 116, 104, 34, 58, 34, 100, 34, 125]

private def docsWire : Wire where
  manifestRequest payload := if payload = docsRequest then .ok ['d'] else .error "expected value"
  manifest _ := .error "expected value"
  fileRequest _ := .error "expected value"
  chunkMapRequest _ := .error "expected value"
  chunkMap _ := .error "expected value"
  chunkRequest _ := .error "expected value"
  chunkData _ := .error "expected value"

private def mayOnlyBrowse : Arrival where
  frame := ⟨1, msgManifestRequest, .optional, docsRequest⟩
  lookup _ := some (some ⟨"pb-a", "fp", "Peer", 0, true, Trust.PermissionSet.none.set .browse true,
    none, false, false⟩)
  now := 0

private def emptyFolder : Host := ⟨fun _ => some ("/docs", .dir .nil), fun _ => true⟩

private def nothingShared : Host := ⟨fun _ => none, fun _ => true⟩

/-- A peer that may browse but not have files is told whether a folder is shared: its manifest
request is answered differently at the two devices. -/
theorem listing_without_files :
    mayOnlyBrowse.Lacks (some "pb-a") .files ∧
    reactions docsWire digest ⟨some "pb-a", [], [], []⟩
        (TwoRuns.left [(emptyFolder, nothingShared, mayOnlyBrowse)]) ≠
      reactions docsWire digest ⟨some "pb-a", [], [], []⟩
        (TwoRuns.right [(emptyFolder, nothingShared, mayOnlyBrowse)]) := by
  constructor
  · intro d _
    show may (mayOnlyBrowse.lookup "pb-a") 0 .files = false
    decide
  · intro same
    have answers := congrArg (List.map fun r => r.sent.map fun
      | Reply.manifest m => m.denied
      | _ => false) same
    revert answers
    decide

end PeerBeam.Sync
