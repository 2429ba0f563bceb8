import PeerBeam.Transfer.FolderReceive

/-! Receiving a folder from any sender: where files go, how large they get, and what is
published, for every sequence of frames and every way it ends. -/
namespace PeerBeam.Transfer

structure Plain (segment : Path) : Prop where
  nonempty : segment ≠ []
  not_dot : segment ≠ ['.']
  not_dots : segment ≠ ['.', '.']
  no_slash : '/' ∉ segment

/-- The path leads below `base`, by ordinary names. -/
def Under (base p : Path) : Prop :=
  ∃ segments : List Path, segments ≠ [] ∧ (∀ x ∈ segments, Plain x) ∧
    p = base ++ segments.flatMap fun x => '/' :: x

theorem not_mem_of_mem_splitOnP {p : Char → Bool} {xs piece : Path} (mem : piece ∈ xs.splitOnP p) :
    ∀ c ∈ piece, p c = false := by
  induction xs generalizing piece with
  | nil =>
    rw [List.splitOnP_nil, List.mem_singleton] at mem
    simp [mem]
  | cons x xs ih =>
    rw [List.splitOnP_cons_eq_if_modifyHead] at mem
    split at mem
    · rcases List.mem_cons.mp mem with rfl | mem
      · simp
      · exact ih mem
    · next plain =>
      obtain ⟨first, rest, eq⟩ := List.exists_cons_of_ne_nil (List.splitOnP_ne_nil p xs)
      rw [eq, List.modifyHead_cons] at mem
      rw [eq] at ih
      rcases List.mem_cons.mp mem with rfl | mem
      · intro c here
        rcases List.mem_cons.mp here with rfl | here
        · simpa using plain
        · exact ih (List.mem_cons_self ..) c here
      · exact ih (List.mem_cons_of_mem _ mem)

theorem intercalate_eq {parts : List Path} (nonempty : parts ≠ []) :
    '/' :: ['/'].intercalate parts = parts.flatMap fun x => '/' :: x := by
  induction parts with
  | nil => exact absurd rfl nonempty
  | cons x parts ih =>
    cases parts with
    | nil => simp
    | cons y parts => rw [List.flatMap_cons, ← ih (by simp), List.intercalate_cons_cons]; simp

theorem destPath_under {destDir root rel dp : Path} (h : destPath destDir root rel = some dp) :
    Under (baseDir destDir root) dp := by
  obtain ⟨safe, sanitized, rfl⟩ := Option.map_eq_some_iff.mp h
  unfold sanitizeRel at sanitized
  split at sanitized
  · cases sanitized
  · next clean =>
    split at sanitized
    · cases sanitized
    · next nonempty =>
      cases sanitized
      refine ⟨_, nonempty, ?_, by rw [← intercalate_eq nonempty]⟩
      intro x mem
      obtain ⟨piece, kept⟩ := List.mem_filter.mp mem
      have separators := not_mem_of_mem_splitOnP piece
      simp only [ne_eq, decide_eq_true_eq] at kept
      refine ⟨kept.1, kept.2, ?_, fun slash => by simpa using separators '/' slash⟩
      rintro rfl
      exact clean (List.any_eq_true.mpr ⟨_, piece, by simp⟩)

/-- A path below `base` is a file in a directory at or below it. -/
theorem Under.split {base p : Path} (h : Under base p) :
    ∃ dir last, Plain last ∧ p = dir ++ '/' :: last ∧ ∀ name, Plain name → Under base (dir ++ '/' :: name) := by
  obtain ⟨segments, nonempty, plain, rfl⟩ := h
  obtain ⟨before, last, rfl⟩ := (List.eq_nil_or_concat' segments).resolve_left nonempty
  refine ⟨base ++ before.flatMap fun x => '/' :: x, last, plain last (by simp), by simp, ?_⟩
  intro name named
  refine ⟨before ++ [name], by simp, ?_, by simp⟩
  intro x mem
  rcases List.mem_append.mp mem with mem | mem
  · exact plain x (List.mem_append_left _ mem)
  · exact List.mem_singleton.mp mem ▸ named

theorem fileName_of_plain {dir last : Path} (plain : Plain last) : fileName (dir ++ '/' :: last) = some last := by
  have segments : (dir ++ '/' :: last).splitOn '/' = dir.splitOn '/' ++ [last] := by
    rw [List.splitOn_append_cons_self, List.splitOn_eq_singleton plain.no_slash]
  unfold fileName
  rw [segments, List.filter_append, List.filter_singleton]
  have kept : decide (last ≠ [] ∧ last ≠ ['.']) = true := by simp [plain.nonempty, plain.not_dot]
  rw [kept]
  simp only [cond_true, List.getLast?_append, List.getLast?_singleton, Option.some_or]
  split
  · next eq => exact absurd (Option.some.inj eq) plain.not_dots
  · rfl

theorem not_mem_toDigits (n : Nat) : '/' ∉ Nat.toDigits 10 n := by
  intro mem
  have := Nat.isDigit_of_mem_toDigits (by decide) (by decide) mem
  revert this
  decide

theorem plain_numbered {stem : Path} (ext : Option Path) (stem_slash : '/' ∉ stem)
    (ext_slash : ∀ e ∈ ext, '/' ∉ e) (n : Nat) : Plain (numbered stem ext n) := by
  have paren : '(' ∈ numbered stem ext n := by simp [numbered]
  refine ⟨?_, ?_, ?_, ?_⟩
  · intro eq; simp [eq] at paren
  · intro eq; simp [eq] at paren
  · intro eq; simp [eq] at paren
  · have ending : '/' ∉ (ext.map ('.' :: ·)).getD [] := by
      cases ext with
      | none => simp
      | some e => simpa using ext_slash e rfl
    simp [numbered, stem_slash, not_mem_toDigits, ending]

theorem stemExt_slash {name : Path} (h : '/' ∉ name) :
    '/' ∉ (stemExt name).1 ∧ ∀ e ∈ (stemExt name).2, '/' ∉ e := by
  have ends : ∀ c ∈ name.reverse.takeWhile (· ≠ '.'), c ∈ name := by
    intro c mem
    exact List.mem_reverse.mp (List.takeWhile_subset _ mem)
  have starts : ∀ c ∈ name.reverse.dropWhile (· ≠ '.'), c ∈ name := by
    intro c mem
    exact List.mem_reverse.mp (List.dropWhile_subset _ mem)
  unfold stemExt rsplitDot
  rw [List.span_eq_takeWhile_dropWhile]
  cases rest : name.reverse.dropWhile (· ≠ '.') with
  | nil => exact ⟨h, by simp⟩
  | cons dot stem =>
    dsimp only
    split
    · exact ⟨h, by simp⟩
    · refine ⟨fun mem => h (starts _ ?_), ?_⟩
      · rw [rest]
        exact List.mem_cons_of_mem _ (List.mem_reverse.mp mem)
      · rintro e ⟨rfl⟩ mem
        exact h (ends _ (List.mem_reverse.mp mem))

/-- Numbering a name keeps it in its directory. -/
theorem Under.candidate {base p : Path} (h : Under base p) (n : Nat) : Under base (candidate p n) := by
  obtain ⟨dir, last, plain, rfl, sibling⟩ := h.split
  have before : (dir ++ '/' :: last).take ((dir ++ '/' :: last).length - last.length) = dir ++ ['/'] := by
    have shape : dir ++ '/' :: last = (dir ++ ['/']) ++ last := by simp
    rw [shape, List.length_append, Nat.add_sub_cancel, List.take_left]
  obtain ⟨stem_slash, ext_slash⟩ := stemExt_slash plain.no_slash
  unfold Transfer.candidate
  rw [fileName_of_plain plain]
  dsimp only [Option.getD_some]
  rw [before]
  split
  · next stem ext eq =>
    rw [eq] at stem_slash ext_slash
    have name := sibling _ (plain_numbered _ stem_slash ext_slash n)
    simpa [numbered] using name
  · have name := sibling _ (plain_numbered none plain.no_slash (by simp) n)
    simpa [numbered] using name

theorem Under.partPath {base p : Path} (h : Under base p) : Under base (partPath p) := by
  obtain ⟨dir, last, plain, rfl, sibling⟩ := h.split
  have longer : 2 < (last ++ partSuffix).length := by simp [partSuffix]
  have named : Plain (last ++ partSuffix) := by
    refine ⟨?_, ?_, ?_, ?_⟩
    · intro eq; simp [eq] at longer
    · intro eq; simp [eq] at longer
    · intro eq; simp [eq] at longer
    · simp [partSuffix, plain.no_slash]
  simpa [Transfer.partPath] using sibling _ named

theorem Under.freeDestination {base p free : Path} {stat : Stat} (h : Under base p)
    (found : freeDestination stat p = .ok free) : Under base free := by
  obtain ⟨k, -, rfl, -⟩ := firstFree_ok_iff.mp found
  exact h.candidate _

theorem Under.claimDestination {base p dest part : Path} {first second : List Path} {stat : Stat} (h : Under base p)
    (claimed : claimDestination first stat second p = .ok (dest, part)) :
    Under base dest ∧ part = Transfer.partPath dest := by
  unfold Transfer.claimDestination at claimed
  split at claimed
  · cases claimed
    exact ⟨h, rfl⟩
  · split at claimed
    · cases claimed
    · next free found =>
      split at claimed
      · cases claimed
        exact ⟨h.freeDestination found, rfl⟩
      · cases claimed

theorem plain_of_fileName {p name : Path} (h : fileName p = some name) : Plain name := by
  unfold fileName at h
  split at h
  · cases h
  · next last not_dots =>
    obtain ⟨mem, kept⟩ := List.mem_filter.mp (List.mem_of_getLast? h)
    simp only [ne_eq, decide_eq_true_eq] at kept
    refine ⟨kept.1, kept.2, fun dots => not_dots (dots ▸ h), fun slash => ?_⟩
    rw [List.splitOn_eq_splitOnP] at mem
    have := not_mem_of_mem_splitOnP mem '/' slash
    simp at this

theorem placement_under {s : FolderReceiver} {setup : FolderSetup} {env : Env} {path dest part : Path}
    (h : s.placement setup env path = some (dest, part)) :
    Under (baseDir setup.destDir setup.root) dest ∧ part = partPath dest := by
  obtain ⟨dp, name, safe, named, claimed⟩ := FolderReceiver.placement_cases h
  have inside := destPath_under safe
  rcases named with rfl | found
  · exact inside.claimDestination claimed
  · exact (inside.freeDestination found).claimDestination claimed

/-- The chunks since the last `FileHeader`, unless the entry has ended. -/
def gather : Option Bytes → Incoming → Option Bytes
  | _, .message (.fileHeader _ _ _ _) => some []
  | _, .message (.fileEnd _ _) => none
  | held, .chunk payload => held.map (· ++ payload)
  | held, _ => held

def sinceHeader (frames : List Incoming) : Option Bytes := frames.foldl gather none

/-- The size the last `FileHeader` declared. -/
def declaredSize (frames : List Incoming) : Nat :=
  frames.foldl (fun declared x =>
    match x with
    | .message (.fileHeader _ _ size _) => size.toNat
    | _ => declared) 0

def payloadTotal (frames : List Incoming) : Nat :=
  (frames.map fun x =>
    match x with
    | .chunk payload => payload.length
    | _ => 0).sum

/-- What is known of a receive that has read `frames` and goes on: the open entry is
staged below `base`, holds the chunks since its header and has not outgrown its header. -/
structure Staged (base : Path) (frames : List Incoming) (s : FolderReceiver) : Prop where
  writer : s.current = s.currentPaths.map Prod.fst
  entry : ∀ part dest, s.currentPaths = some (part, dest) →
    Under base dest ∧ part = partPath dest ∧
      ∃ held, sinceHeader frames = some held ∧ s.disk part = some held ∧ s.entryHash = held ∧
        held.length = s.entryWritten
  within : s.entryWritten ≤ s.entryLimit
  limit : s.entryLimit ≤ declaredSize frames
  counted : s.entryWritten ≤ payloadTotal frames ∧ s.done ≤ payloadTotal frames

structure Turned (base : Path) (hash : Bytes → String) (frames : List Incoming) (s : FolderReceiver)
    (x : Incoming) (s' : FolderReceiver) : Prop where
  contained : ∀ p, ¬ Under base p → s'.disk p = s.disk p
  published : s'.published = s.published ∨
    ∃ dest bytes, s'.published = s.published ++ [(dest, bytes)] ∧ Under base dest ∧
      sinceHeader frames = some bytes ∧ ∀ i want, x = .message (.fileEnd i (some want)) → hash bytes = want
  withheld : ∀ r, s'.ended = some r → r ≠ .ok .completed →
    s'.published = s.published ∧ ∀ p, s.current ≠ some p → s'.disk p = s.disk p
  bounded : ∀ part, s'.current = some part →
    ∃ bytes, s'.disk part = some bytes ∧ bytes.length ≤ declaredSize (frames ++ [x])
  goesOn : s'.ended = none → Staged base (frames ++ [x]) s'

theorem payloadTotal_append (xs ys : List Incoming) :
    payloadTotal (xs ++ ys) = payloadTotal xs + payloadTotal ys := by
  rw [payloadTotal, List.map_append, List.sum_append]
  rfl

theorem sinceHeader_snoc (frames : List Incoming) (x : Incoming) :
    sinceHeader (frames ++ [x]) = gather (sinceHeader frames) x :=
  List.foldl_append ..

theorem declaredSize_snoc (frames : List Incoming) (x : Incoming) :
    declaredSize (frames ++ [x]) =
      match x with
      | .message (.fileHeader _ _ size _) => size.toNat
      | _ => declaredSize frames := by
  rw [declaredSize, List.foldl_append]
  rfl

namespace Staged
variable {base : Path} {hash : Bytes → String} {frames : List Incoming} {s s' : FolderReceiver} {x : Incoming}

theorem counted_snoc (h : Staged base frames s) (x : Incoming) :
    s.entryWritten ≤ payloadTotal (frames ++ [x]) ∧ s.done ≤ payloadTotal (frames ++ [x]) := by
  have := h.counted
  rw [payloadTotal_append]
  omega

/-- The staging file of the open entry. -/
theorem openFile (h : Staged base frames s) {part : Path} (writing : s.current = some part) :
    ∃ held dest, s.currentPaths = some (part, dest) ∧ Under base part ∧ sinceHeader frames = some held ∧
      s.disk part = some held ∧ s.entryHash = held ∧ held.length = s.entryWritten := by
  rw [h.writer] at writing
  obtain ⟨⟨_, dest⟩, paths, rfl⟩ := Option.map_eq_some_iff.mp writing
  obtain ⟨inside, rfl, held, gathered, staged, hashed, length⟩ := h.entry _ _ paths
  exact ⟨held, dest, paths, inside.partPath, gathered, staged, hashed, length⟩

/-- With nothing open, only the declared size and the counters matter. -/
theorem idle (closed : s'.current = none ∧ s'.currentPaths = none) (within : s'.entryWritten ≤ s'.entryLimit)
    (limit : s'.entryLimit ≤ declaredSize frames)
    (counted : s'.entryWritten ≤ payloadTotal frames ∧ s'.done ≤ payloadTotal frames) : Staged base frames s' := by
  refine ⟨by rw [closed.1, closed.2]; rfl, ?_, within, limit, counted⟩
  intro part dest paths
  rw [closed.2] at paths
  cases paths

/-- A frame that changes nothing. -/
theorem quiet (h : Staged base frames s) (alive : s.ended = none)
    (sizes : declaredSize (frames ++ [x]) = declaredSize frames)
    (gathered : s.current = none ∨ sinceHeader (frames ++ [x]) = sinceHeader frames) :
    Turned base hash frames s x s := by
  have next : Staged base (frames ++ [x]) s := by
    refine ⟨h.writer, ?_, h.within, sizes ▸ h.limit, h.counted_snoc x⟩
    intro part dest paths
    rcases gathered with closed | gathered
    · rw [h.writer, paths] at closed
      cases closed
    · rw [gathered]
      exact h.entry part dest paths
  refine ⟨fun _ _ => rfl, .inl rfl, fun r ended => ?_, fun part writing => ?_, fun _ => next⟩
  · rw [alive] at ended
    cases ended
  · obtain ⟨held, dest, paths, -, -, staged, -, length⟩ := next.openFile writing
    have := next.within
    have := next.limit
    exact ⟨held, staged, by omega⟩

/-- An end that changes no file, with the entry still open or dropped. -/
theorem stopped (h : Staged base frames s) (r : Except DomainError TransferOutcome)
    (disk : s'.disk = s.disk) (published : s'.published = s.published) (ended : s'.ended = some r)
    (sizes : s'.current = none ∨ s'.current = s.current ∧ declaredSize (frames ++ [x]) = declaredSize frames) :
    Turned base hash frames s x s' := by
  refine ⟨fun p _ => by rw [disk], .inl published, fun _ _ _ => ⟨published, fun p _ => by rw [disk]⟩, ?_, ?_⟩
  · intro part writing
    rcases sizes with closed | ⟨same, sizes⟩
    · rw [closed] at writing
      cases writing
    · obtain ⟨held, dest, paths, -, -, staged, -, length⟩ := h.openFile (same ▸ writing)
      have := h.within
      have := h.limit
      exact ⟨held, by rw [disk, staged], by omega⟩
  · intro goesOn
    rw [ended] at goesOn
    cases goesOn

/-- Finishing the open entry, for a frame whose checksum the gathered bytes have, publishes
what was gathered or nothing. -/
theorem finishEntry (h : Staged base frames s) {s₀ s₁ : FolderReceiver} {env : Env} {landed : Bool}
    (verified : ∀ i want, x = .message (.fileEnd i (some want)) → hash s.entryHash = want)
    (finished : s₀.finishEntry env = .ok (s₁, landed)) (disk : s₀.disk = s.disk)
    (paths : s₀.currentPaths = s.currentPaths) (published : s₀.published = s.published) :
    (∀ p, ¬ Under base p → s₁.disk p = s.disk p) ∧
    (s₁.published = s.published ∨ ∃ dest bytes, s₁.published = s.published ++ [(dest, bytes)] ∧ Under base dest ∧
      sinceHeader frames = some bytes ∧ ∀ i want, x = .message (.fileEnd i (some want)) → hash bytes = want) := by
  obtain ⟨-, ⟨-, same, kept⟩ | ⟨part, dest, opened, -, same, kept⟩ | ⟨part, dest, bytes, opened, -, held, same, kept⟩⟩ :=
    FolderReceiver.finishEntry_ok finished
  · exact ⟨fun p _ => by rw [kept, disk], .inl (same.trans published)⟩
  · rw [paths] at opened
    obtain ⟨inside, -⟩ := h.entry part dest opened
    refine ⟨fun p outside => ?_, .inl (same.trans published)⟩
    rw [kept, disk, Function.update_of_ne]
    rintro rfl
    exact outside inside
  · rw [paths] at opened
    obtain ⟨inside, rfl, gathered, since, staged, hashed, -⟩ := h.entry part dest opened
    obtain rfl : bytes = gathered := by
      rw [disk, staged] at held
      exact (Option.some.inj held).symm
    refine ⟨fun p outside => ?_, .inr ⟨dest, bytes, by rw [same, published], inside, since, hashed ▸ verified⟩⟩
    rw [kept, disk, Function.update_of_ne, Function.update_of_ne]
    · rintro rfl
      exact outside inside
    · rintro rfl
      exact outside inside.partPath

theorem onChunk (h : Staged base frames s) (alive : s.ended = none) (env : Env) (payload : Bytes) :
    Turned base hash frames s (.chunk payload) (s.onChunk env payload) := by
  have sizes : declaredSize (frames ++ [.chunk payload]) = declaredSize frames := declaredSize_snoc ..
  have total : payloadTotal (frames ++ [.chunk payload]) = payloadTotal frames + payload.length := by
    rw [payloadTotal_append]
    rfl
  have within := h.within
  have limit := h.limit
  have counted := h.counted
  unfold FolderReceiver.onChunk
  split
  · next closed => exact h.quiet alive sizes (.inl closed)
  · next part writing =>
    obtain ⟨held, dest, paths, inside, since, staged, hashed, length⟩ := h.openFile writing
    split
    · exact h.stopped _ rfl rfl rfl (.inr ⟨rfl, sizes⟩)
    · next fits =>
      rw [staged, Option.getD_some]
      have contained : ∀ (bytes : Option Bytes) (p : Path), ¬ Under base p →
          Function.update s.disk part bytes p = s.disk p := by
        intro bytes p outside
        rw [Function.update_of_ne]
        rintro rfl
        exact outside inside
      split
      · next wrote e failed =>
        refine ⟨contained _, .inl rfl, fun r _ _ => ⟨rfl, fun p other => ?_⟩, ?_, fun goesOn => by cases goesOn⟩
        · dsimp only
          rw [Function.update_of_ne]
          rintro rfl
          exact other writing
        · intro part' writing'
          obtain rfl := Option.some.inj (writing.symm.trans writing')
          refine ⟨_, Function.update_self .., ?_⟩
          have : (payload.take wrote).length ≤ payload.length := List.length_take_le' ..
          rw [List.length_append, sizes]
          omega
      · next written =>
        have next : Staged base (frames ++ [.chunk payload])
            { s with
              disk := Function.update s.disk part (some (held ++ payload))
              entryHash := s.entryHash ++ payload
              entryWritten := s.entryWritten + payload.length
              done := s.done + payload.length } := by
          refine ⟨h.writer, ?_, by dsimp only; omega, by rw [sizes]; exact limit, by dsimp only; omega⟩
          intro part' dest' paths'
          obtain ⟨rfl, rfl⟩ := Prod.mk.inj (Option.some.inj (paths.symm.trans paths'))
          obtain ⟨inside', named, -⟩ := h.entry _ _ paths
          refine ⟨inside', named, held ++ payload, ?_, Function.update_self .., by dsimp only; rw [hashed], ?_⟩
          · rw [sinceHeader_snoc, since]
            rfl
          · rw [List.length_append, length]
        refine ⟨contained _, .inl rfl, fun r ended => ?_, ?_, fun _ => next⟩
        · rw [alive] at ended
          cases ended
        · intro part' writing'
          obtain ⟨bytes, dest', -, -, -, staged', -, length'⟩ := next.openFile writing'
          refine ⟨bytes, staged', ?_⟩
          rw [length', sizes]
          dsimp only
          omega

theorem onHeader {setup : FolderSetup} {path : Path} {size offset : UInt64} {index : UInt32}
    (h : Staged (baseDir setup.destDir setup.root) frames s) (alive : s.ended = none) (env : Env) :
    Turned (baseDir setup.destDir setup.root) hash frames s (.message (.fileHeader index path size offset))
      (s.onHeader setup env path size offset) := by
  have sizes : declaredSize (frames ++ [.message (.fileHeader index path size offset)]) = size.toNat :=
    declaredSize_snoc ..
  unfold FolderReceiver.onHeader
  dsimp only
  split
  · exact h.stopped _ rfl rfl rfl (.inl rfl)
  · next s₁ landed finished =>
    obtain ⟨shape, -⟩ := FolderReceiver.finishEntry_ok finished
    have unchecked : ∀ i want, Incoming.message (.fileHeader index path size offset) =
        .message (.fileEnd i (some want)) → hash s.entryHash = want := nofun
    obtain ⟨contained, published⟩ := h.finishEntry unchecked finished rfl rfl rfl
    obtain ⟨written, hashed, -, begun⟩ := s₁.beginEntry_eq setup env path
    have going : s₁.ended = none := by
      rw [shape]
      exact alive
    have reset : s₁.entryWritten = 0 ∧ s₁.entryLimit = size.toNat - offset.toNat ∧ s₁.done = s.done := by
      rw [shape]
      exact ⟨rfl, rfl, rfl⟩
    have counted := (h.counted_snoc (.message (.fileHeader index path size offset))).2
    rw [begun]
    split
    · refine ⟨contained, published, fun r ended => ?_, fun part writing => (nomatch writing), fun _ => ?_⟩
      · exact nomatch going.symm.trans ended
      · refine Staged.idle ⟨rfl, rfl⟩ ?_ ?_ ?_ <;> dsimp only [FolderReceiver.skip] <;> omega
    · next dest part placed =>
      obtain ⟨inside, rfl⟩ := placement_under placed
      refine ⟨fun p outside => ?_, published, fun r ended => ?_, fun part writing => ?_, fun _ => ?_⟩
      · dsimp only
        rw [Function.update_of_ne, contained p outside]
        rintro rfl
        exact outside inside.partPath
      · exact nomatch going.symm.trans ended
      · obtain rfl := Option.some.inj writing
        exact ⟨[], Function.update_self .., Nat.zero_le _⟩
      · refine ⟨rfl, ?_, ?_, ?_, ?_⟩ <;> dsimp only
        · rintro _ _ ⟨⟩
          refine ⟨inside, rfl, [], sinceHeader_snoc .., Function.update_self .., rfl, reset.1.symm⟩
        · omega
        · omega
        · omega

theorem onFileEnd {setup : FolderSetup} {checksum : Option String} {index : UInt32}
    (h : Staged base frames s) (alive : s.ended = none) (env : Env) :
    Turned base setup.hash frames s (.message (.fileEnd index checksum)) (s.onFileEnd setup env checksum) := by
  have sizes : declaredSize (frames ++ [.message (.fileEnd index checksum)]) = declaredSize frames :=
    declaredSize_snoc ..
  have within := h.within
  have limit := h.limit
  have counted := h.counted_snoc (.message (.fileEnd index checksum))
  unfold FolderReceiver.onFileEnd
  dsimp only
  split
  · refine ⟨fun _ _ => rfl, .inl rfl, fun r ended => ?_, fun part writing => (nomatch writing), fun _ => ?_⟩
    · exact nomatch alive.symm.trans ended
    · refine Staged.idle ⟨rfl, rfl⟩ ?_ ?_ ?_ <;> dsimp only <;> omega
  · next agrees =>
    split
    · exact h.stopped _ rfl rfl rfl (.inl rfl)
    · next s₁ landed finished =>
      have verified : ∀ i want, Incoming.message (.fileEnd index checksum) = .message (.fileEnd i (some want)) →
          setup.hash s.entryHash = want := by
        rintro i want ⟨⟩
        have same : want = setup.hash s.entryHash := by simpa using agrees
        exact same.symm
      obtain ⟨shape, -⟩ := FolderReceiver.finishEntry_ok finished
      obtain ⟨contained, published⟩ := h.finishEntry verified finished rfl rfl rfl
      have kept : s₁.entryWritten = s.entryWritten ∧ s₁.entryLimit = s.entryLimit ∧ s₁.done = s.done ∧
          s₁.ended = none ∧ s₁.current = none ∧ s₁.currentPaths = none := by
        rw [shape]
        exact ⟨rfl, rfl, rfl, alive, rfl, rfl⟩
      obtain ⟨sameWritten, sameLimit, sameDone, going, closed, untaken⟩ := kept
      refine ⟨contained, published, fun r ended => ?_, fun part writing => ?_, fun _ => ?_⟩
      · exact nomatch going.symm.trans ended
      · exact nomatch closed.symm.trans writing
      · refine Staged.idle ⟨closed, untaken⟩ ?_ ?_ ?_ <;> dsimp only <;> omega

theorem onMessage {setup : FolderSetup} (h : Staged (baseDir setup.destDir setup.root) frames s)
    (alive : s.ended = none) (env : Env) (m : FolderMessage) :
    Turned (baseDir setup.destDir setup.root) setup.hash frames s (.message m) (s.onMessage setup env m) := by
  cases m with
  | fileHeader => exact h.onHeader alive env
  | fileEnd => exact h.onFileEnd alive env
  | complete =>
    dsimp only [FolderReceiver.onMessage]
    split
    · exact h.stopped _ rfl rfl rfl (.inl rfl)
    · next s₁ landed finished =>
      obtain ⟨shape, -⟩ := FolderReceiver.finishEntry_ok finished
      obtain ⟨contained, published⟩ := h.finishEntry (x := .message .complete) nofun finished rfl rfl rfl
      have closed : s₁.current = none := by rw [shape]
      refine ⟨contained, published, fun r ended => ?_, fun part writing => ?_, fun goesOn => (nomatch goesOn)⟩
      · exact fun other => absurd (Option.some.inj ended).symm other
      · exact nomatch closed.symm.trans writing
  | cancel => exact h.stopped _ rfl rfl rfl (.inl rfl)
  | manifest => exact h.quiet alive (declaredSize_snoc ..) (.inr (sinceHeader_snoc ..))
  | resumeState => exact h.quiet alive (declaredSize_snoc ..) (.inr (sinceHeader_snoc ..))
  | received => exact h.quiet alive (declaredSize_snoc ..) (.inr (sinceHeader_snoc ..))
  | pause => exact h.quiet alive (declaredSize_snoc ..) (.inr (sinceHeader_snoc ..))
  | resume => exact h.quiet alive (declaredSize_snoc ..) (.inr (sinceHeader_snoc ..))

theorem step {setup : FolderSetup} (h : Staged (baseDir setup.destDir setup.root) frames s) (alive : s.ended = none)
    (turn : Incoming × Env) :
    Turned (baseDir setup.destDir setup.root) setup.hash frames s turn.1 (s.step setup turn) := by
  obtain ⟨x, env⟩ := turn
  unfold FolderReceiver.step
  rw [alive]
  cases x with
  | chunk payload => exact h.onChunk alive env payload
  | message m => exact h.onMessage alive env m
  | other => exact h.quiet alive (declaredSize_snoc ..) (.inr (sinceHeader_snoc ..))
  | malformed => exact h.stopped _ rfl rfl rfl (.inr ⟨rfl, declaredSize_snoc ..⟩)
  | closed => exact h.stopped _ rfl rfl rfl (.inr ⟨rfl, declaredSize_snoc ..⟩)
  | broken => exact h.stopped _ rfl rfl rfl (.inr ⟨rfl, declaredSize_snoc ..⟩)
  | cancelled => exact h.stopped _ rfl rfl rfl (.inr ⟨rfl, declaredSize_snoc ..⟩)

end Staged

section
variable {setup : FolderSetup} {disk : Path → Option Bytes}

theorem staged_start : Staged (baseDir setup.destDir setup.root) [] (FolderReceiver.start disk) :=
  Staged.idle ⟨rfl, rfl⟩ (Nat.le_refl _) (Nat.zero_le _) ⟨Nat.le_refl _, Nat.le_refl _⟩

/-- As long as it goes on, a receive is staged properly. -/
theorem staged_run (turns : List (Incoming × Env)) (alive : (receiveFolder setup disk turns).ended = none) :
    Staged (baseDir setup.destDir setup.root) (turns.map Prod.fst) (receiveFolder setup disk turns) := by
  induction turns using List.reverseRecOn with
  | nil => exact staged_start
  | append_singleton turns turn ih =>
    have before := FolderReceiver.alive_before _ alive
    have next := ((ih before).step before turn).goesOn
    unfold receiveFolder at alive ⊢
    rw [FolderReceiver.run_append] at alive ⊢
    rw [List.map_append]
    exact next alive

/-- Every turn that is taken is safe. -/
theorem turned (earlier : List (Incoming × Env)) (turn : Incoming × Env)
    (alive : (receiveFolder setup disk earlier).ended = none) :
    Turned (baseDir setup.destDir setup.root) setup.hash (earlier.map Prod.fst) (receiveFolder setup disk earlier)
      turn.1 (receiveFolder setup disk (earlier ++ [turn])) := by
  have step := (staged_run earlier alive).step alive turn
  unfold receiveFolder at step ⊢
  rw [FolderReceiver.run_append]
  exact step

theorem receiveFolder_of_ended {earlier : List (Incoming × Env)} {r : Except DomainError TransferOutcome}
    (ended : (receiveFolder setup disk earlier).ended = some r) (later : List (Incoming × Env)) :
    receiveFolder setup disk (earlier ++ later) = receiveFolder setup disk earlier := by
  unfold receiveFolder at ended ⊢
  rw [FolderReceiver.run_append, FolderReceiver.run_of_ended _ ended]

theorem contained (turns : List (Incoming × Env)) {p : Path} (outside : ¬ Under (baseDir setup.destDir setup.root) p) :
    (receiveFolder setup disk turns).disk p = disk p := by
  induction turns using List.reverseRecOn with
  | nil => rfl
  | append_singleton turns turn ih =>
    cases ended : (receiveFolder setup disk turns).ended with
    | none => rw [(turned turns turn ended).contained p outside, ih]
    | some r => rw [receiveFolder_of_ended ended, ih]

end

end PeerBeam.Transfer
