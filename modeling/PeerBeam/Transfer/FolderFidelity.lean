import PeerBeam.Lib.Run
import PeerBeam.Transfer.FolderSafety
import PeerBeam.Transfer.FolderSend

/-! A folder sent over a faithful link: every entry the receiver counts is there, in a file
of its own and with its source's bytes, as long as no published path is used again. -/
namespace PeerBeam.Transfer

/-- A turn of this receive, or a file that another one writes or removes. -/
inductive FolderEvent where
  | turn (turn : Incoming × Env)
  | others (path : Path) (content : Option Bytes)

def FolderReceiver.among (setup : FolderSetup) (s : FolderReceiver) : FolderEvent → FolderReceiver
  | .turn turn => s.step setup turn
  | .others path content => { s with disk := Function.update s.disk path content }

def FolderEvent.frame? : FolderEvent → Option Incoming
  | .turn step => some step.1
  | .others _ _ => none

def framesOf (events : List FolderEvent) : List Incoming := events.filterMap FolderEvent.frame?

def FolderReceiver.dests (s : FolderReceiver) : List Path := s.published.map Prod.fst

/-- The entry that is announced and keeps its own name finds it unpublished by this receive,
and so does every entry its staging path; what others write is neither published by this
receive nor its open staging file. -/
def Apart (setup : FolderSetup) (s : FolderReceiver) : FolderEvent → Prop
  | .turn (.message (.fileHeader _ path _ _), env) =>
    ∀ place ∈ s.placement setup env path,
      (destPath setup.destDir setup.root path = some place.1 → place.1 ∉ s.dests) ∧ place.2 ∉ s.dests
  | .turn _ => True
  | .others path _ => path ∉ s.dests ∧ s.current ≠ some path

theorem Probe.stat_none {probe : Probe} {disk : Path → Option Bytes} {p : Path} (h : probe.stat disk p = .ok none) :
    disk p = none := by
  unfold Probe.stat at h
  split at h
  · cases h
  · cases h
  · next absent => exact absent

theorem freeDestination_absent {probe : Probe} {disk : Path → Option Bytes} {dest free : Path}
    (h : freeDestination (probe.stat disk) dest = .ok free) : disk free = none := by
  obtain ⟨k, -, rfl, absent, -⟩ := firstFree_ok_iff.mp h
  exact Probe.stat_none absent

theorem claimDestination_absent {probe : Probe} {disk : Path → Option Bytes} {first second : List Path}
    {name dest part : Path} (h : claimDestination first (probe.stat disk) second name = .ok (dest, part)) :
    dest = name ∨ disk dest = none := by
  unfold claimDestination at h
  split at h
  · cases h
    exact .inl rfl
  · split at h
    · cases h
    · next found =>
      split at h
      · cases h
        exact .inr (freeDestination_absent found)
      · cases h

/-- Whatever renames an entry, it is placed under its own name or where no file is. -/
theorem placement_absent {s : FolderReceiver} {setup : FolderSetup} {env : Env} {path dest part : Path}
    (h : s.placement setup env path = some (dest, part)) :
    destPath setup.destDir setup.root path = some dest ∨ s.disk dest = none := by
  obtain ⟨dp, name, own, named, claimed⟩ := FolderReceiver.placement_cases h
  rcases claimDestination_absent claimed with rfl | absent
  · rcases named with rfl | found
    · exact .inl own
    · exact .inr (freeDestination_absent found)
  · exact .inr absent

/-- A reading of the frames alone: the chunks of the open entry, the bytes of the entries
that ended, and whether each entry ended before the next frame that finishes one. -/
structure Tally where
  held : Option Bytes
  entries : List Bytes
  orderly : Bool

def Tally.read (t : Tally) (x : Incoming) : Tally where
  held := gather t.held x
  entries :=
    match x with
    | .message (.fileEnd _ _) => t.entries ++ t.held.toList
    | _ => t.entries
  orderly :=
    match x with
    | .message (.fileHeader _ _ _ _) | .message .complete => t.orderly && t.held.isNone
    | _ => t.orderly

def tally (frames : List Incoming) : Tally := frames.foldl Tally.read ⟨none, [], true⟩

theorem tally_snoc (frames : List Incoming) (x : Incoming) : tally (frames ++ [x]) = (tally frames).read x :=
  List.foldl_append ..

theorem tally_held (frames : List Incoming) : (tally frames).held = sinceHeader frames := by
  induction frames using List.reverseRecOn with
  | nil => rfl
  | append_singleton frames x ih => rw [tally_snoc, sinceHeader_snoc, ← ih]; rfl

theorem orderly_before {frames : List Incoming} {x : Incoming} (h : (tally (frames ++ [x])).orderly = true) :
    (tally frames).orderly = true := by
  rw [tally_snoc] at h
  unfold Tally.read at h
  dsimp only at h
  split at h
  · exact (Bool.and_eq_true_iff.mp h).1
  · exact (Bool.and_eq_true_iff.mp h).1
  · exact h

theorem orderly_of_append {frames more : List Incoming} (h : (tally (frames ++ more)).orderly = true) :
    (tally frames).orderly = true := by
  induction more using List.reverseRecOn with
  | nil => rwa [List.append_nil] at h
  | append_singleton more x ih =>
    rw [← List.append_assoc] at h
    exact ih (orderly_before h)

theorem read_chunks (held : Bytes) (entries : List Bytes) (chunks : List Bytes) :
    (chunks.map Incoming.chunk).foldl Tally.read ⟨some held, entries, true⟩ =
      ⟨some (held ++ chunks.flatten), entries, true⟩ := by
  induction chunks generalizing held with
  | nil => simp
  | cons chunk chunks ih =>
    rw [List.map_cons, List.foldl_cons, List.flatten_cons, ← List.append_assoc]
    exact ih (held ++ chunk)

theorem read_entry {hash : Bytes → String} {chunk : Nat} (pos : 0 < chunk) (i : Nat) (f : SourceFile)
    (entries : List Bytes) :
    (entryFrames hash chunk i f 0).foldl Tally.read ⟨none, entries, true⟩ = ⟨none, entries ++ [f.content], true⟩ := by
  have read : (readChunks chunk f.content.length f.content).flatten = f.content :=
    readChunks_flatten pos _ _ (Nat.le_refl _)
  rw [entryFrames, UInt64.toNat_zero, List.drop_zero, List.foldl_cons, List.foldl_append]
  have opened : Tally.read ⟨none, entries, true⟩ (.message (.fileHeader (UInt32.ofNat i) f.rel f.size 0)) =
      ⟨some [], entries, true⟩ := rfl
  rw [opened, read_chunks, List.nil_append, read]
  rfl

inductive Effect (setup : FolderSetup) (frames : List Incoming) (s : FolderReceiver) (turn : Incoming × Env)
    (s' : FolderReceiver) : Prop where
  /-- At most the open staging file changes, and the entry stays open or is dropped. -/
  | keeps (published : s'.published = s.published) (count : s'.filesCompleted = s.filesCompleted)
      (disk : ∀ p, s.current ≠ some p → s'.disk p = s.disk p)
      (paths : s'.currentPaths = none ∨
        s'.currentPaths = s.currentPaths ∧ s'.currentSkipped = s.currentSkipped)
  | opens (index : UInt32) (path : Path) (size offset : UInt64) (dest part : Path)
      (frame : turn.1 = .message (.fileHeader index path size offset))
      (placed : s.placement setup turn.2 path = some (dest, part))
      (published : s'.published = s.published) (count : s'.filesCompleted = s.filesCompleted)
      (disk : ∀ p, p ≠ part → s'.disk p = s.disk p)
      (paths : s'.currentPaths = some (part, dest) ∧ s'.currentSkipped = false)
  /-- The entry ended and is not there: what was at its destination may be gone. -/
  | loses (part dest : Path) (opened : s.currentPaths = some (part, dest))
      (published : s'.published = s.published) (count : s'.filesCompleted = s.filesCompleted)
      (disk : ∀ p, p ≠ dest → s'.disk p = s.disk p) (paths : s'.currentPaths = none)
  | lands (index : UInt32) (checksum : Option String) (part dest : Path) (bytes : Bytes)
      (frame : turn.1 = .message (.fileEnd index checksum))
      (opened : s.currentPaths = some (part, dest)) (held : sinceHeader frames = some bytes)
      (published : s'.published = s.published ++ [(dest, bytes)])
      (count : s'.filesCompleted = if s.currentSkipped then s.filesCompleted else s.filesCompleted + 1)
      (disk : s'.disk = Function.update (Function.update s.disk dest (some bytes)) part none)
      (paths : s'.currentPaths = none)

section
variable {setup : FolderSetup} {base : Path} {frames : List Incoming} {s s' : FolderReceiver}

/-- Finishing when nothing is open. -/
theorem finishEntry_closed {env : Env} {landed : Bool} (finished : s.finishEntry env = .ok (s', landed))
    (closed : s.currentPaths = none) : s'.published = s.published ∧ s'.disk = s.disk := by
  obtain ⟨-, ⟨-, published, disk⟩ | ⟨part, dest, opened, -⟩ | ⟨part, dest, bytes, opened, -⟩⟩ :=
    FolderReceiver.finishEntry_ok finished
  · exact ⟨published, disk⟩
  · exact nomatch closed.symm.trans opened
  · exact nomatch closed.symm.trans opened

theorem Staged.closed (h : Staged base frames s) (ended : sinceHeader frames = none) : s.currentPaths = none := by
  cases opened : s.currentPaths with
  | none => rfl
  | some place =>
    obtain ⟨-, -, held, gathered, -⟩ := h.entry place.1 place.2 opened
    exact nomatch ended.symm.trans gathered

theorem effect_header (h : Staged base frames s) (closed : sinceHeader frames = none) (env : Env)
    (index : UInt32) (path : Path) (size offset : UInt64) :
    Effect setup frames s (.message (.fileHeader index path size offset), env)
      (s.onHeader setup env path size offset) := by
  have untaken := h.closed closed
  unfold FolderReceiver.onHeader
  dsimp only
  split
  · exact .keeps rfl rfl (fun _ _ => rfl) (.inl rfl)
  · next s₁ landed finished =>
    obtain ⟨published, disk⟩ := finishEntry_closed finished untaken
    obtain ⟨shape, -⟩ := FolderReceiver.finishEntry_ok finished
    have same : s₁.written = s.written ∧ s₁.filesCompleted = s.filesCompleted ∧ s₁.currentPaths = none := by
      rw [shape]
      exact ⟨rfl, rfl, rfl⟩
    have placement := FolderReceiver.placement_congr same.1 disk setup env path
    obtain ⟨written, hashed, -, begun⟩ := s₁.beginEntry_eq setup env path
    rw [begun, placement]
    cases placed : s.placement setup env path with
    | none => exact .keeps published same.2.1 (fun p _ => congrFun disk p) (.inl rfl)
    | some place =>
      refine .opens index path size offset place.1 place.2 rfl placed published same.2.1 ?_ ⟨rfl, rfl⟩
      intro p other
      dsimp only at disk ⊢
      rw [Function.update_of_ne other, disk]

theorem effect_fileEnd (h : Staged base frames s) (env : Env) (index : UInt32) (checksum : Option String) :
    Effect setup frames s (.message (.fileEnd index checksum), env) (s.onFileEnd setup env checksum) := by
  unfold FolderReceiver.onFileEnd
  dsimp only
  split
  · exact .keeps rfl rfl (fun _ _ => rfl) (.inl rfl)
  · split
    · exact .keeps rfl rfl (fun _ _ => rfl) (.inl rfl)
    · next s₁ landed finished =>
      obtain ⟨shape, outcome⟩ := FolderReceiver.finishEntry_ok finished
      have same : s₁.filesCompleted = s.filesCompleted ∧ s₁.currentSkipped = s.currentSkipped ∧
          s₁.currentPaths = none := by
        rw [shape]
        exact ⟨rfl, rfl, rfl⟩
      rcases outcome with ⟨rfl, published, disk⟩ | ⟨part, dest, opened, rfl, published, disk⟩ |
        ⟨part, dest, bytes, opened, rfl, staged, published, disk⟩
      · refine .keeps published ?_ (fun p _ => congrFun disk p) (.inl same.2.2)
        simp [same.1]
      · refine .loses part dest opened published ?_ ?_ same.2.2
        · simp [same.1]
        · intro p other
          dsimp only at disk ⊢
          rw [disk, Function.update_of_ne other]
      · obtain ⟨-, -, held, gathered, onDisk, -⟩ := h.entry part dest opened
        obtain rfl : held = bytes := Option.some.inj (onDisk.symm.trans staged)
        refine .lands index checksum part dest held rfl opened gathered published ?_ disk same.2.2
        cases skipped : s.currentSkipped with
        | true => simp [same.1, same.2.1, skipped]
        | false => simp [same.1, same.2.1, skipped]

/-- Every turn of an orderly receive. -/
theorem effect_step (h : Staged base frames s) (alive : s.ended = none) (turn : Incoming × Env)
    (orderly : (tally (frames ++ [turn.1])).orderly = true) : Effect setup frames s turn (s.step setup turn) := by
  obtain ⟨x, env⟩ := turn
  have finishes (h' : Tally.read (tally frames) x = { Tally.read (tally frames) x with
      orderly := (tally frames).orderly && (tally frames).held.isNone }) : sinceHeader frames = none := by
    rw [tally_snoc, h'] at orderly
    rw [← tally_held]
    exact Option.isNone_iff_eq_none.mp (Bool.and_eq_true_iff.mp orderly).2
  have same : Effect setup frames s (x, env) s := .keeps rfl rfl (fun _ _ => rfl) (.inr ⟨rfl, rfl⟩)
  unfold FolderReceiver.step
  rw [alive]
  cases x with
  | chunk payload =>
    dsimp only
    unfold FolderReceiver.onChunk
    split
    · exact same
    · next part writing =>
      have elsewhere (content : Option Bytes) (p : Path) (other : s.current ≠ some p) :
          Function.update s.disk part content p = s.disk p := by
        rw [Function.update_of_ne]
        rintro rfl
        exact other writing
      split
      · exact .keeps rfl rfl (fun _ _ => rfl) (.inr ⟨rfl, rfl⟩)
      · split
        · exact .keeps rfl rfl (elsewhere _) (.inr ⟨rfl, rfl⟩)
        · exact .keeps rfl rfl (elsewhere _) (.inr ⟨rfl, rfl⟩)
  | message m =>
    cases m with
    | fileHeader index path size offset => exact effect_header h (finishes rfl) env index path size offset
    | fileEnd index checksum => exact effect_fileEnd h env index checksum
    | complete =>
      have untaken := h.closed (finishes rfl)
      dsimp only [FolderReceiver.onMessage]
      split
      · exact .keeps rfl rfl (fun _ _ => rfl) (.inl rfl)
      · next s₁ landed finished =>
        obtain ⟨published, disk⟩ := finishEntry_closed finished untaken
        obtain ⟨shape, -⟩ := FolderReceiver.finishEntry_ok finished
        have same : s₁.filesCompleted = s.filesCompleted ∧ s₁.currentPaths = none := by
          rw [shape]
          exact ⟨rfl, rfl⟩
        exact .keeps published same.1 (fun p _ => congrFun disk p) (.inl same.2)
    | cancel => exact .keeps rfl rfl (fun _ _ => rfl) (.inr ⟨rfl, rfl⟩)
    | _ => exact same
  | other => exact same
  | _ => exact .keeps rfl rfl (fun _ _ => rfl) (.inr ⟨rfl, rfl⟩)

/-- Every counted entry is there, in a file of its own, with the bytes of an entry that ended. -/
structure Kept (base : Path) (frames : List Incoming) (s : FolderReceiver) : Prop where
  staged : s.ended = none → Staged base frames s
  opened : s.ended = none → ∀ part dest, s.currentPaths = some (part, dest) →
    (dest ∉ s.dests ∧ part ∉ s.dests) ∧ s.currentSkipped = false
  counted : s.filesCompleted = s.published.length
  source : (s.published.map Prod.snd).Sublist (tally frames).entries
  inside : ∀ dest ∈ s.dests, Under base dest
  distinct : s.dests.Nodup
  present : ∀ dest bytes, (dest, bytes) ∈ s.published → s.disk dest = some bytes

theorem entries_snoc (frames : List Incoming) (x : Incoming) :
    (tally frames).entries.Sublist (tally (frames ++ [x])).entries := by
  rw [tally_snoc]
  unfold Tally.read
  dsimp only
  split
  · exact List.sublist_append_left ..
  · exact List.Sublist.refl _

theorem mem_dests {dest : Path} {bytes : Bytes} (mem : (dest, bytes) ∈ s.published) : dest ∈ s.dests :=
  List.mem_map_of_mem mem

namespace Kept

/-- Nothing was published: the files that were must be as they were. -/
theorem unpublished (h : Kept base frames s) {x : Incoming}
    (staged : s'.ended = none → Staged base (frames ++ [x]) s')
    (published : s'.published = s.published) (count : s'.filesCompleted = s.filesCompleted)
    (disk : ∀ p ∈ s.dests, s'.disk p = s.disk p)
    (opened : s'.ended = none → ∀ part dest, s'.currentPaths = some (part, dest) →
      (dest ∉ s.dests ∧ part ∉ s.dests) ∧ s'.currentSkipped = false) : Kept base (frames ++ [x]) s' := by
  have dests : s'.dests = s.dests := by
    unfold FolderReceiver.dests
    rw [published]
  refine ⟨staged, ?_, ?_, ?_, ?_, ?_, ?_⟩
  · rw [dests]
    exact opened
  · rw [count, published]
    exact h.counted
  · rw [published]
    exact h.source.trans (entries_snoc frames x)
  · rw [dests]
    exact h.inside
  · rw [dests]
    exact h.distinct
  · intro dest bytes mem
    rw [published] at mem
    rw [disk dest (mem_dests mem)]
    exact h.present dest bytes mem

theorem turn (h : Kept (baseDir setup.destDir setup.root) frames s) (turn : Incoming × Env)
    (apart : Apart setup s (.turn turn)) (orderly : (tally (frames ++ [turn.1])).orderly = true) :
    Kept (baseDir setup.destDir setup.root) (frames ++ [turn.1]) (s.step setup turn) := by
  cases ended : s.ended with
  | some r =>
    rw [s.step_of_ended ended]
    exact h.unpublished (fun alive => nomatch ended.symm.trans alive) rfl rfl (fun _ _ => rfl)
      (fun alive => nomatch ended.symm.trans alive)
  | none =>
    have staged := (h.staged ended).step ended turn
    have notOpen : ∀ p ∈ s.dests, s.current ≠ some p := by
      intro p mem writing
      obtain ⟨held, dest, paths, -⟩ := (h.staged ended).openFile writing
      exact (h.opened ended p dest paths).1.2 mem
    cases effect_step (h.staged ended) ended turn orderly with
    | keeps published count disk paths =>
      refine h.unpublished staged.goesOn published count (fun p mem => disk p (notOpen p mem)) ?_
      intro _ part dest opened
      rcases paths with closed | ⟨same, flag⟩
      · exact nomatch closed.symm.trans opened
      · rw [flag]
        exact h.opened ended part dest (same ▸ opened)
    | opens index path size offset dest part frame placed published count disk paths =>
      obtain ⟨x, env⟩ := turn
      obtain rfl : x = .message (.fileHeader index path size offset) := frame
      obtain ⟨ownFree, partFree⟩ := apart (dest, part) placed
      have destFree : dest ∉ s.dests := by
        rcases placement_absent placed with own | absent
        · exact ownFree own
        · intro mem
          obtain ⟨⟨_, bytes⟩, published, rfl⟩ := List.mem_map.mp mem
          exact nomatch absent.symm.trans (h.present _ bytes published)
      refine h.unpublished staged.goesOn published count (fun p mem => disk p ?_) ?_
      · rintro rfl
        exact partFree mem
      · intro _ part' dest' opened
        cases paths.1.symm.trans opened
        exact ⟨⟨destFree, partFree⟩, paths.2⟩
    | loses part dest opened published count disk paths =>
      obtain ⟨⟨destFree, -⟩, -⟩ := h.opened ended part dest opened
      refine h.unpublished staged.goesOn published count (fun p mem => disk p ?_) ?_
      · rintro rfl
        exact destFree mem
      · intro _ part' dest' opened'
        exact nomatch paths.symm.trans opened'
    | lands index checksum part dest bytes frame opened held published count disk paths =>
      obtain ⟨⟨destFree, partFree⟩, flag⟩ := h.opened ended part dest opened
      obtain ⟨inside, named, -⟩ := (h.staged ended).entry part dest opened
      have apartFromStaging : dest ≠ part := by
        intro eq
        have := congrArg List.length (eq.trans named)
        simp [partPath, partSuffix] at this
      have dests : (s.step setup turn).dests = s.dests ++ [dest] := by
        unfold FolderReceiver.dests
        rw [published, List.map_append]
        rfl
      refine ⟨staged.goesOn, fun _ part' dest' opened' => (nomatch paths.symm.trans opened'), ?_, ?_, ?_, ?_, ?_⟩
      · rw [count, flag, published, h.counted, List.length_append]
        rfl
      · rw [published, List.map_append, tally_snoc, frame]
        unfold Tally.read
        dsimp only
        rw [tally_held, held]
        exact h.source.append (List.Sublist.refl _)
      · rw [dests]
        intro p mem
        rcases List.mem_append.mp mem with old | new
        · exact h.inside p old
        · exact List.mem_singleton.mp new ▸ inside
      · rw [dests]
        exact h.distinct.append (List.nodup_singleton _) (by simpa using destFree)
      · intro p content mem
        rw [published] at mem
        rw [disk]
        rcases List.mem_append.mp mem with old | new
        · have known := mem_dests old
          rw [Function.update_of_ne, Function.update_of_ne]
          · exact h.present p content old
          · rintro rfl
            exact destFree known
          · rintro rfl
            exact partFree known
        · cases List.mem_singleton.mp new
          rw [Function.update_of_ne apartFromStaging, Function.update_self]

theorem others (h : Kept base frames s) {path : Path} (content : Option Bytes)
    (apart : path ∉ s.dests ∧ s.current ≠ some path) :
    Kept base frames { s with disk := Function.update s.disk path content } := by
  refine ⟨fun alive => ?_, h.opened, h.counted, h.source, h.inside, h.distinct, ?_⟩
  · have staged := h.staged alive
    refine ⟨staged.writer, ?_, staged.within, staged.limit, staged.counted⟩
    intro part dest opened
    obtain ⟨inside, named, held, gathered, onDisk, hashed⟩ := staged.entry part dest opened
    have other : part ≠ path := by
      rintro rfl
      exact apart.2 (by rw [staged.writer, opened]; rfl)
    refine ⟨inside, named, held, gathered, ?_, hashed⟩
    dsimp only
    rw [Function.update_of_ne other, onDisk]
  · intro dest bytes mem
    have other : dest ≠ path := by
      rintro rfl
      exact apart.1 (mem_dests mem)
    dsimp only
    rw [Function.update_of_ne other]
    exact h.present dest bytes mem

theorem run (h : Kept (baseDir setup.destDir setup.root) frames s) (events : List FolderEvent)
    (apart : TransitionRun.Along (FolderReceiver.among setup) (Apart setup) s events)
    (orderly : (tally (frames ++ framesOf events)).orderly = true) :
    Kept (baseDir setup.destDir setup.root) (frames ++ framesOf events) (events.foldl (FolderReceiver.among setup) s) := by
  induction events generalizing frames s with
  | nil =>
    rw [framesOf, List.filterMap_nil, List.append_nil]
    exact h
  | cons event events ih =>
    cases event with
    | turn turn =>
      have split : frames ++ framesOf (.turn turn :: events) = (frames ++ [turn.1]) ++ framesOf events := by
        rw [List.append_assoc]
        rfl
      rw [split] at orderly ⊢
      exact ih (h.turn turn apart.1 (orderly_of_append orderly)) apart.2 orderly
    | others path content => exact ih (h.others content apart.1) apart.2 orderly

end Kept

end

/-- Every entry that was counted is in the destination directory, in a file of its own,
and holds the bytes of the source file it stands for. -/
structure Faithful (setup : FolderSetup) (folder : SourceFolder) (s : FolderReceiver) : Prop where
  counted : s.filesCompleted = s.published.length
  source : ∃ landed : List SourceFile, landed.Sublist (sentFiles folder.files) ∧
    s.published.map Prod.snd = landed.map SourceFile.content
  inside : ∀ dest ∈ s.dests, Under (baseDir setup.destDir setup.root) dest
  distinct : s.dests.Nodup
  present : ∀ dest bytes, (dest, bytes) ∈ s.published → s.disk dest = some bytes

/-- Two entries share a destination, or a published file is gone. -/
def Broken (s : FolderReceiver) : Prop := ¬ s.dests.Nodup ∨ ∃ dest ∈ s.dests, s.disk dest = none

section
variable {setup : FolderSetup} {s : FolderReceiver}

theorem Broken.land {s' : FolderReceiver} (h : Broken s) {dest part : Path} {bytes : Bytes}
    (published : s'.published = s.published ++ [(dest, bytes)])
    (disk : s'.disk = Function.update (Function.update s.disk dest (some bytes)) part none) : Broken s' := by
  have dests : s'.dests = s.dests ++ [dest] := by
    unfold FolderReceiver.dests
    rw [published, List.map_append]
    rfl
  unfold Broken
  rw [dests]
  rcases h with shared | ⟨lost, mem, gone⟩
  · exact .inl fun nodup => shared (List.nodup_append.mp nodup).1
  · by_cases same : lost = dest
    · refine .inl fun nodup => ?_
      exact (List.nodup_append.mp nodup).2.2 lost mem dest (List.mem_singleton_self _) same
    · refine .inr ⟨lost, List.mem_append_left _ mem, ?_⟩
      by_cases staging : lost = part
      · rw [disk, staging, Function.update_self]
      · rw [disk, Function.update_of_ne staging, Function.update_of_ne same, gone]

end

end PeerBeam.Transfer
