import PeerBeam.Sync.DeltaPlan
import PeerBeam.Sync.LocalWork

/-! What fetching one file by its chunks does to all the files of a disk: the destination, the staging
file beside it, and whatever a user keeps under the name of the staging file. -/
namespace PeerBeam.Sync

structure Place where
  dir : List FileName
  name : FileName
  deriving DecidableEq

/-- `staging_path`. -/
def Place.staging (p : Place) : Place := { p with name := stagingName p.name }

theorem Place.staging_ne (p : Place) : p.staging ≠ p := by
  intro same
  have length := congrArg (fun q : Place => q.name.val.length) same
  simp [staging, stagingName, stagingSuffix] at length

abbrev Files := Place → Option Bytes

/-- What the system lets a fetch do. Creating includes the directories above; a staging file that
cannot be removed keeps what was written of it. -/
structure Os extends Disk where
  removes : Bool
  left : Bytes

/-- Reading a chunk back, and asking the peer for some. Both may keep a state and answer anything. -/
structure Sources (σ : Type) where
  readLocal : σ → String → Option Bytes × σ
  fetch : σ → List String → Fetched × σ

section
variable (hash : Bytes → String) {σ : Type}

def windowSupply (src : Sources σ) (fetched : Fetched) (s : σ × Nat) (want : String) :
    Option Bytes × (σ × Nat) :=
  match fetched[want]? with
  | some bytes => (some bytes, s)
  | none =>
    let (bytes, next) := src.readLocal s.1 want
    (bytes, (next, s.2 + (bytes.elim 0 List.length)))

def writeStaging (disk : Disk) (out bytes : Bytes) : Option Bytes :=
  if disk.writes out.length then some (out ++ bytes) else none

def streamWindow (disk : Disk) (src : Sources σ) (held : List String) (acc : (σ × Nat) × Bytes)
    (window : List Chunk) : Option ((σ × Nat) × Bytes) :=
  let missing := (window.filter fun c => c.hash ∉ held).map Chunk.hash
  let (fetched, s) := if missing = [] then (∅, acc.1.1) else src.fetch acc.1.1 missing
  (reassembleIntoWriter hash (windowSupply src fetched) (writeStaging disk) window (s, acc.1.2)
    acc.2 0).map fun (s, out, _) => (s, out)

/-- The staging file is not left behind to be mistaken for a synced one. -/
def abandon (os : Os) (files : Files) (dest : Place) : Files :=
  Function.update files dest.staging (if os.removes then none else some os.left)

/-- `fs::rename` of the staging file, which held `out`. -/
def publish (files : Files) (dest : Place) (out : Bytes) : Files :=
  Function.update (Function.update files dest (some out)) dest.staging none

/-- `fetch_streamed`: the bytes reused, and the files afterwards. -/
def fetchStreamedFiles (os : Os) (src : Sources σ) (s : σ) (chunks : List Chunk) (held : List String)
    (files : Files) (dest : Place) : Option Nat × Files :=
  if !os.creates then (none, files)
  else
    match (windows fetchWindow chunks).foldlM (streamWindow hash os.toDisk src held) ((s, 0), []) with
    | none => (none, abandon os files dest)
    | some ((_, reuse), out) =>
      if os.flushes && os.renames then (some reuse, publish files dest out)
      else (none, abandon os files dest)

end

section
variable {hash : Bytes → String}

/-- A pool that is only looked up, and a peer whose answers depend on nothing else. -/
def Pool.sources (pool : Pool) (fetch : List String → Fetched) : Sources Unit where
  readLocal _ want := (pool.read want, ())
  fetch _ wants := (fetch wants, ())

theorem windowSupply_sources (pool : Pool) (fetch : List String → Fetched) (fetched : Fetched)
    (reuse : Nat) (want : String) :
    windowSupply (pool.sources fetch) fetched ((), reuse) want =
      ((supply fetched pool want).map Prod.fst, ((), reuse + ((supply fetched pool want).elim 0 Prod.snd))) := by
  rw [windowSupply, supply]
  cases fetched[want]? with
  | some bytes => rfl
  | none =>
    simp only [Pool.sources]
    cases pool.read want <;> rfl

theorem reassembleInto_eq_writer (disk : Disk) (fetched : Fetched) (pool : Pool)
    (fetch : List String → Fetched) (chunks : List Chunk) (out : Bytes) (reuse : Nat)
    (written : UInt64) :
    reassembleInto hash disk (supply fetched pool) chunks (out, reuse) =
      (reassembleIntoWriter hash (windowSupply (pool.sources fetch) fetched) (writeStaging disk)
        chunks ((), reuse) out written).map fun (s, out, _) => (out, s.2) := by
  induction chunks generalizing out reuse written with
  | nil => rfl
  | cons c rest ih =>
    rw [reassembleInto, reassembleIntoWriter, windowSupply_sources]
    cases supply fetched pool c.hash with
    | none => rfl
    | some got =>
      obtain ⟨bytes, saved⟩ := got
      simp only [Option.map_some, Option.elim_some]
      by_cases length : bytes.length ≠ c.len
      · rw [if_pos length, if_pos length, Option.map_none]
      rw [if_neg length, if_neg length]
      by_cases name : hash bytes ≠ c.hash
      · rw [if_pos name, if_pos name, Option.map_none]
      rw [if_neg name, if_neg name, writeStaging]
      by_cases room : disk.writes out.length = true
      · rw [if_pos room, if_pos room]
        exact ih ..
      · rw [if_neg room, if_neg room, Option.map_none]

theorem buildWindow_eq_stream (disk : Disk) (pool : Pool) (fetch : List String → Fetched)
    (out : Bytes) (reuse : Nat) (window : List Chunk) :
    buildWindow hash disk pool fetch (out, reuse) window =
      (streamWindow hash disk (pool.sources fetch) pool.held (((), reuse), out) window).map
        fun (s, out) => (out, s.2) := by
  rw [buildWindow, streamWindow]
  by_cases none : (window.filter fun c => c.hash ∉ pool.held).map Chunk.hash = []
  · simp only [if_pos none]
    rw [reassembleInto_eq_writer disk ∅ pool fetch window out reuse 0, Option.map_map]
    rfl
  · simp only [if_neg none]
    rw [reassembleInto_eq_writer disk _ pool fetch window out reuse 0, Option.map_map]
    rfl

/-- What is known of the destination under such a pool and peer. -/
theorem fetchStreamed_eq_files (os : Os) (pool : Pool) (fetch : List String → Fetched)
    (chunks : List Chunk) (files : Files) (dest : Place) :
    let after := fetchStreamedFiles hash os (pool.sources fetch) () chunks pool.held files dest
    fetchStreamed hash os.toDisk chunks pool fetch (files dest) = (after.1, after.2 dest) := by
  have loop (ws : List (List Chunk)) (out : Bytes) (reuse : Nat) :
      ws.foldlM (buildWindow hash os.toDisk pool fetch) (out, reuse) =
        (ws.foldlM (streamWindow hash os.toDisk (pool.sources fetch) pool.held)
          (((), reuse), out)).map fun (s, out) => (out, s.2) := by
    induction ws generalizing out reuse with
    | nil => rfl
    | cons w ws ih =>
      rw [List.foldlM_cons, List.foldlM_cons, buildWindow_eq_stream]
      cases streamWindow hash os.toDisk (pool.sources fetch) pool.held (((), reuse), out) w with
      | none => rfl
      | some acc => exact ih ..
  have kept : abandon os files dest dest = files dest :=
    Function.update_of_ne dest.staging_ne.symm _ _
  have landed (out : Bytes) : publish files dest out dest = some out := by
    rw [publish, Function.update_of_ne dest.staging_ne.symm, Function.update_self]
  simp only [fetchStreamed, fetchStreamedFiles, loop]
  cases os.creates with
  | false => rfl
  | true =>
    cases (windows fetchWindow chunks).foldlM
        (streamWindow hash os.toDisk (pool.sources fetch) pool.held) (((), 0), []) with
    | none => exact Prod.ext rfl kept.symm
    | some acc =>
      cases os.flushes && os.renames with
      | false => exact Prod.ext rfl kept.symm
      | true => exact Prod.ext rfl (landed acc.2).symm

def Matches (hash : Bytes → String) (c : Chunk) (bytes : Bytes) : Prop :=
  bytes.length = c.len ∧ hash bytes = c.hash

variable {σ : Type}

/-- Whatever is written is the verified pieces in order. -/
theorem reassembleIntoWriter_pieces {disk : Disk} {supply : σ → String → Option Bytes × σ}
    {chunks : List Chunk} {s s' : σ} {out out' : Bytes} {written written' : UInt64}
    (done : reassembleIntoWriter hash supply (writeStaging disk) chunks s out written =
      some (s', out', written')) :
    ∃ pieces, List.Forall₂ (Matches hash) chunks pieces ∧ out' = out ++ pieces.flatten := by
  induction chunks generalizing s out written with
  | nil =>
    obtain ⟨-, rfl, -⟩ := Option.some.inj done
    exact ⟨[], List.Forall₂.nil, (List.append_nil _).symm⟩
  | cons c rest ih =>
    rw [reassembleIntoWriter] at done
    split at done
    · cases done
    · next bytes next _ =>
      by_cases length : bytes.length ≠ c.len
      · rw [if_pos length] at done
        cases done
      rw [if_neg length] at done
      by_cases name : hash bytes ≠ c.hash
      · rw [if_pos name] at done
        cases done
      rw [if_neg name, writeStaging] at done
      by_cases room : disk.writes out.length = true
      · rw [if_pos room] at done
        obtain ⟨pieces, matched, built⟩ := ih done
        refine ⟨bytes :: pieces, .cons ⟨not_not.mp length, not_not.mp name⟩ matched, ?_⟩
        rw [built, List.flatten_cons, List.append_assoc]
      · rw [if_neg room] at done
        cases done

theorem streamWindow_pieces {disk : Disk} {src : Sources σ} {held : List String}
    {acc acc' : (σ × Nat) × Bytes} {window : List Chunk}
    (done : streamWindow hash disk src held acc window = some acc') :
    ∃ pieces, List.Forall₂ (Matches hash) window pieces ∧ acc'.2 = acc.2 ++ pieces.flatten := by
  obtain ⟨⟨s, out, written⟩, built, rfl⟩ := Option.map_eq_some_iff.mp done
  exact reassembleIntoWriter_pieces built

theorem foldlM_streamWindow_pieces {disk : Disk} {src : Sources σ} {held : List String}
    {ws : List (List Chunk)} {acc acc' : (σ × Nat) × Bytes}
    (done : ws.foldlM (streamWindow hash disk src held) acc = some acc') :
    ∃ pieces, List.Forall₂ (Matches hash) ws.flatten pieces ∧ acc'.2 = acc.2 ++ pieces.flatten := by
  induction ws generalizing acc with
  | nil =>
    obtain rfl := Option.some.inj done
    exact ⟨[], List.Forall₂.nil, (List.append_nil _).symm⟩
  | cons w ws ih =>
    rw [List.foldlM_cons] at done
    obtain ⟨mid, first, rest⟩ := Option.bind_eq_some_iff.mp done
    obtain ⟨pieces, matched, built⟩ := streamWindow_pieces first
    obtain ⟨pieces', matched', built'⟩ := ih rest
    refine ⟨pieces ++ pieces', List.rel_append matched matched', ?_⟩
    rw [built', built, List.flatten_append, List.append_assoc]

variable (hash) in
/-- How a fetch ends: not begun, given up, or published with the verified pieces. -/
theorem fetchStreamedFiles_cases (os : Os) (src : Sources σ) (s : σ) (chunks : List Chunk)
    (held : List String) (files : Files) (dest : Place) :
    (os.creates = false ∧
      fetchStreamedFiles hash os src s chunks held files dest = (none, files)) ∨
    fetchStreamedFiles hash os src s chunks held files dest = (none, abandon os files dest) ∨
    ∃ reuse pieces, List.Forall₂ (Matches hash) chunks pieces ∧
      fetchStreamedFiles hash os src s chunks held files dest =
        (some reuse, publish files dest pieces.flatten) := by
  rw [fetchStreamedFiles]
  cases os.creates with
  | false => exact .inl ⟨rfl, rfl⟩
  | true =>
    rw [if_neg (by decide)]
    right
    cases built : (windows fetchWindow chunks).foldlM (streamWindow hash os.toDisk src held) ((s, 0), []) with
    | none => exact .inl rfl
    | some acc =>
      obtain ⟨⟨next, reuse⟩, out⟩ := acc
      cases os.flushes && os.renames with
      | false => exact .inl rfl
      | true =>
        obtain ⟨pieces, matched, whole⟩ := foldlM_streamWindow_pieces built
        rw [flatten_windows (by decide)] at matched
        obtain rfl : out = pieces.flatten := whole
        exact .inr ⟨reuse, pieces, matched, rfl⟩

structure DestExact (hash : Bytes → String) (chunks : List Chunk) (files : Files) (dest : Place)
    (after : Option Nat × Files) : Prop where
  built : ∀ reuse, after.1 = some reuse →
    ∃ pieces, List.Forall₂ (Matches hash) chunks pieces ∧ after.2 dest = some pieces.flatten
  kept : after.1 = none → after.2 dest = files dest

theorem fetchStreamedFiles_dest (os : Os) (src : Sources σ) (s : σ) (chunks : List Chunk)
    (held : List String) (files : Files) (dest : Place) :
    DestExact hash chunks files dest
      (fetchStreamedFiles hash os src s chunks held files dest) := by
  rcases fetchStreamedFiles_cases hash os src s chunks held files dest with
    ⟨-, same⟩ | same | ⟨reuse, pieces, matched, same⟩ <;> rw [same]
  · exact ⟨nofun, fun _ => rfl⟩
  · exact ⟨nofun, fun _ => Function.update_of_ne dest.staging_ne.symm _ _⟩
  · refine ⟨fun _ _ => ⟨pieces, matched, ?_⟩, nofun⟩
    change publish files dest pieces.flatten dest = _
    rw [publish, Function.update_of_ne dest.staging_ne.symm, Function.update_self]

def Apart (files : Files) (dest : Place) (after : Option Nat × Files) : Prop :=
  ∀ place, place ≠ dest → after.2 place = files place

theorem apart_of_free {files : Files} {dest : Place} (free : files dest.staging = none) (os : Os)
    (removes : os.removes = true) (src : Sources σ) (s : σ) (chunks : List Chunk)
    (held : List String) :
    Apart files dest (fetchStreamedFiles hash os src s chunks held files dest) := by
  intro place other
  rcases fetchStreamedFiles_cases hash os src s chunks held files dest with
    ⟨-, same⟩ | same | ⟨reuse, pieces, -, same⟩ <;> rw [same]
  · change abandon os files dest place = _
    rw [abandon, if_pos removes, Function.update_apply]
    split
    · next at' => rw [at', free]
    · rfl
  · change publish files dest pieces.flatten place = _
    rw [publish, Function.update_apply]
    split
    · next at' => rw [at', free]
    · exact Function.update_of_ne other _ _

end

/-- For every map, held set, reader and peer, and whatever else the system does, the destination is
exact or untouched; the other files are untouched exactly where nothing stands under the staging
name and the staging file can be removed. -/
theorem fetch_streamed_exact_iff (hash : Bytes → String) (files : Files) (dest : Place)
    (removes : Bool) :
    (∀ (σ : Type) (src : Sources σ) (s : σ) (os : Os) (chunks : List Chunk) (held : List String),
      os.removes = removes →
        DestExact hash chunks files dest (fetchStreamedFiles hash os src s chunks held files dest)) ∧
    ((∀ (σ : Type) (src : Sources σ) (s : σ) (os : Os) (chunks : List Chunk) (held : List String),
      os.removes = removes →
        Apart files dest (fetchStreamedFiles hash os src s chunks held files dest)) ↔
      files dest.staging = none ∧ removes = true) := by
  refine ⟨fun _ src s os chunks held _ => fetchStreamedFiles_dest os src s chunks held files dest,
    fun apart => ?_, ?_⟩
  · let silent : Sources Unit := ⟨fun _ _ => (none, ()), fun _ _ => (∅, ())⟩
    let unflushed : Os := ⟨⟨true, fun _ => true, false, true⟩, removes, []⟩
    have built : publish files dest [] dest.staging = files dest.staging :=
      apart Unit silent () ⟨.working, removes, []⟩ [] [] rfl _ dest.staging_ne
    rw [publish, Function.update_self] at built
    refine ⟨built.symm, ?_⟩
    by_contra stays
    have left : abandon unflushed files dest dest.staging = files dest.staging :=
      apart Unit silent () unflushed [] [] rfl _ dest.staging_ne
    rw [abandon, Function.update_self, if_neg stays, ← built] at left
    cases left
  · rintro ⟨free, rfl⟩ σ src s os chunks held removes
    exact apart_of_free free os removes src s chunks held

/-- A user's own file under the staging name is lost by a fetch that succeeds. -/
theorem users_staging_name_lost :
    let name : FileName := ⟨['f'], by decide⟩
    let dest : Place := ⟨[], name⟩
    let files : Files := fun place => if place = dest.staging then some [1, 2, 3] else none
    let src : Sources Unit := ⟨fun _ _ => (some [7], ()), fun _ _ => (∅, ())⟩
    let after := fetchStreamedFiles (fun _ => "h") ⟨.working, true, []⟩ src () [⟨0, 1, "h"⟩] ["h"]
      files dest
    after.1 = some 1 ∧ after.2 dest = some [7] ∧ files dest.staging = some [1, 2, 3] ∧
      after.2 dest.staging = none := by
  exact ⟨rfl, rfl, rfl, rfl⟩

end PeerBeam.Sync
