import Mathlib
import PeerBeam.Lib.Run
import PeerBeam.Transfer.Names

/-! Publishing received files. Many `finalize` calls go on at a time, each one file system
operation after another, on candidate names that overlap. -/
namespace PeerBeam.Transfer

/-- Where one call of `finalize` stands. -/
inductive Phase where
  /-- `try_reserve` of the `n`-th candidate is next. -/
  | reserving (n : Nat)
  /-- The placeholder at `path` is this call's; `set_permissions` is next. -/
  | reserved (path : Path)
  /-- `rename` is next. -/
  | permitted (path : Path)
  /-- `promote` failed; `remove_file` of the placeholder is next. -/
  | releasing (path : Path)
  | completed (path : Path)
  | failed
  /-- Failed, and the placeholder could not be removed either. -/
  | abandoned (path : Path)
  deriving DecidableEq

structure Call where
  temp : Path
  dest : Path
  bytes : Bytes
  phase : Phase

def Phase.running : Phase → Bool
  | .reserving _ | .reserved _ | .permitted _ | .releasing _ => true
  | .completed _ | .failed | .abandoned _ => false

/-- The disk, the paths among it that are temp files, and the calls made so far. -/
structure Publisher where
  disk : Path → Option Bytes
  temps : List Path
  calls : List Call

inductive PublishEvent where
  /-- A receive writes its temp file. -/
  | stage (temp : Path) (bytes : Bytes)
  /-- A receive that owns its temp file calls `finalize`. -/
  | call (temp dest : Path)
  /-- The `i`-th call takes its next operation, which the system grants or refuses. -/
  | step (i : Nat) (granted : Bool)

namespace Publisher
variable (s : Publisher)

/-- A call that has not returned still uses this temp file. -/
def Busy (temp : Path) : Prop := ∃ c ∈ s.calls, c.temp = temp ∧ c.phase.running

instance (temp : Path) : Decidable (s.Busy temp) := inferInstanceAs (Decidable (∃ c ∈ _, _ ∧ _))

def setPhase (i : Nat) (c : Call) (phase : Phase) : Publisher :=
  { s with calls := s.calls.set i { c with phase := phase } }

def advance (i : Nat) (c : Call) (granted : Bool) : Publisher :=
  match c.phase with
  | .reserving n =>
    let path := uniqueCandidate c.dest n
    if !granted then s.setPhase i c .failed
    else if (s.disk path).isSome then s.setPhase i c (.reserving (n + 1))
    else { s.setPhase i c (.reserved path) with disk := Function.update s.disk path (some []) }
  | .reserved path => s.setPhase i c (if granted then .permitted path else .releasing path)
  | .permitted path =>
    match s.disk c.temp with
    | some bytes =>
      if granted then
        { s.setPhase i c (.completed path) with
          disk := Function.update (Function.update s.disk path (some bytes)) c.temp none
          temps := s.temps.filter (· ≠ c.temp) }
      else s.setPhase i c (.releasing path)
    | none => s.setPhase i c (.releasing path)
  | .releasing path =>
    -- best effort: a refusal is only logged
    if granted then { s.setPhase i c .failed with disk := Function.update s.disk path none }
    else s.setPhase i c (.abandoned path)
  | .completed _ | .failed | .abandoned _ => s

def step : PublishEvent → Publisher
  | .stage temp bytes =>
    if (s.disk temp = none ∨ temp ∈ s.temps) ∧ ¬ s.Busy temp then
      { s with disk := Function.update s.disk temp (some bytes), temps := temp :: s.temps }
    else s
  | .call temp dest =>
    match s.disk temp with
    | some bytes =>
      if temp ∈ s.temps ∧ ¬ s.Busy temp then { s with calls := s.calls ++ [⟨temp, dest, bytes, .reserving 0⟩] }
      else s
    | none => s
  | .step i granted =>
    match s.calls[i]? with
    | some c => s.advance i c granted
    | none => s

end Publisher

/-- Any disk to begin with; some of its files may be temp files. -/
def Publisher.start (disk : Path → Option Bytes) (temps : List Path) : Publisher :=
  ⟨disk, temps.filter fun p => (disk p).isSome, []⟩

def Publisher.run (disk : Path → Option Bytes) (temps : List Path) (events : List PublishEvent) : Publisher :=
  events.foldl Publisher.step (.start disk temps)

def Call.file (c : Call) : Option (Path × Bytes) :=
  match c.phase with
  | .reserved path | .permitted path | .releasing path | .abandoned path => some (path, [])
  | .completed path => some (path, c.bytes)
  | .reserving _ | .failed => none

def Call.place (c : Call) : Option Path := c.file.map Prod.fst

theorem Call.file_of_place {c : Call} {p : Path} (h : c.place = some p) : ∃ b, c.file = some (p, b) := by
  obtain ⟨⟨_, b⟩, eq, rfl⟩ := Option.map_eq_some_iff.mp h
  exact ⟨b, eq⟩

theorem Call.place_of_file {c : Call} {p : Path} {b : Bytes} (h : c.file = some (p, b)) : c.place = some p :=
  Option.map_eq_some_iff.mpr ⟨(p, b), h, rfl⟩

/-- Every file is a temp file, one that was there from the start, or one call's own. -/
structure Accounted (initial : Path → Option Bytes) (s : Publisher) : Prop where
  kept : ∀ p b, initial p = some b → s.disk p = some b ∧ p ∉ s.temps
  placed : ∀ {i : Nat} {c : Call} {p : Path} {b : Bytes}, s.calls[i]? = some c → c.file = some (p, b) →
    s.disk p = some b ∧ p ∉ s.temps ∧ initial p = none
  once : ∀ {i j : Nat} {c d : Call} {p : Path}, s.calls[i]? = some c → s.calls[j]? = some d →
    c.place = some p → d.place = some p → i = j
  all : ∀ p b, s.disk p = some b → p ∉ s.temps →
    initial p = some b ∨ ∃ (i : Nat) (c : Call), s.calls[i]? = some c ∧ c.file = some (p, b)
  temp : ∀ {i : Nat} {c : Call}, s.calls[i]? = some c → c.phase.running →
    c.temp ∈ s.temps ∧ s.disk c.temp = some c.bytes
  own : ∀ {i j : Nat} {c d : Call}, s.calls[i]? = some c → s.calls[j]? = some d → c.phase.running →
    d.phase.running → c.temp = d.temp → i = j
  present : ∀ p ∈ s.temps, s.disk p ≠ none

/-- What a running call's step may do: give its place up, take a free one, fill the one it
has, and move its own temp file away. -/
structure Change (s : Publisher) (i : Nat) (c : Call) (s' : Publisher) (c' : Call) : Prop where
  calls : s'.calls = s.calls.set i c'
  temp : c'.temp = c.temp
  bytes : c'.bytes = c.bytes
  frame : ∀ p, c.place ≠ some p → c'.place ≠ some p → p ≠ c.temp → s'.disk p = s.disk p
  temps : ∀ p, p ≠ c.temp → (p ∈ s'.temps ↔ p ∈ s.temps)
  fresh : ∀ p, c'.place = some p → c.place = some p ∨ s.disk p = none
  placed : ∀ p b, c'.file = some (p, b) → s'.disk p = some b
  released : ∀ p, c.place = some p → c'.place ≠ some p → s'.disk p = none
  tempKept : c.temp ∈ s'.temps → s'.disk c.temp = s.disk c.temp
  tempGone : c.temp ∉ s'.temps → s'.disk c.temp = none ∧ ¬ c'.phase.running

namespace Change
variable {initial : Path → Option Bytes} {s s' : Publisher} {i : Nat} {c c' : Call}

/-- The calls afterwards: the one that took the step, and the others. -/
theorem look (ch : Change s i c s' c') (at_i : s.calls[i]? = some c) (j : Nat) (d : Call) :
    s'.calls[j]? = some d ↔ (j = i ∧ d = c') ∨ (j ≠ i ∧ s.calls[j]? = some d) := by
  have inside : i < s.calls.length := (List.getElem?_eq_some_iff.mp at_i).1
  rw [ch.calls, List.getElem?_set]
  by_cases eq : j = i
  · simp [eq, inside, eq_comm]
  · simp [eq, Ne.symm eq]

/-- A path in use that is not this call's is outside its reach. -/
theorem outside (ch : Change s i c s' c') {p : Path} (taken : s.disk p ≠ none) (other : c.place ≠ some p)
    (ne : p ≠ c.temp) : s'.disk p = s.disk p ∧ c'.place ≠ some p := by
  have elsewhere : c'.place ≠ some p := by
    intro new
    rcases ch.fresh p new with old | free
    · exact other old
    · exact taken free
  exact ⟨ch.frame p other elsewhere ne, elsewhere⟩

/-- A call that runs on did so before, with the same temp file. -/
theorem ran (ch : Change s i c s' c') (at_i : s.calls[i]? = some c) (running : c.phase.running) {j : Nat} {d : Call}
    (at_j : s'.calls[j]? = some d) (runs : d.phase.running) :
    ∃ d', s.calls[j]? = some d' ∧ d'.phase.running ∧ d'.temp = d.temp := by
  rcases (ch.look at_i j d).mp at_j with ⟨rfl, rfl⟩ | ⟨-, at_j⟩
  · exact ⟨c, at_i, running, ch.temp.symm⟩
  · exact ⟨d, at_j, runs, rfl⟩

/-- A temp file is not where this call has its place. -/
theorem place_ne_temp (h : Accounted initial s) (at_i : s.calls[i]? = some c) {p : Path} (mem : p ∈ s.temps) : c.place ≠ some p := by
  intro place
  obtain ⟨b, file⟩ := Call.file_of_place place
  exact (h.placed at_i file).2.1 mem

/-- Every file that is no temp file is still accounted for. -/
theorem all (ch : Change s i c s' c') (h : Accounted initial s) (at_i : s.calls[i]? = some c) {p : Path} {b : Bytes}
    (on_disk : s'.disk p = some b) (not : p ∉ s'.temps) :
    initial p = some b ∨ ∃ (j : Nat) (d : Call), s'.calls[j]? = some d ∧ d.file = some (p, b) := by
  by_cases new : c'.place = some p
  · obtain ⟨b', file⟩ := Call.file_of_place new
    have same : b' = b := Option.some.inj ((ch.placed p b' file).symm.trans on_disk)
    exact .inr ⟨i, c', (ch.look at_i i c').mpr (.inl ⟨rfl, rfl⟩), same ▸ file⟩
  · by_cases old : c.place = some p
    · simp [ch.released p old new] at on_disk
    · by_cases eq : p = c.temp
      · subst eq
        simp [(ch.tempGone not).1] at on_disk
      · rw [ch.frame p old new eq] at on_disk
        rcases h.all p b on_disk fun mem => not ((ch.temps p eq).mpr mem) with start | ⟨j, d, at_j, file⟩
        · exact .inl start
        · have ne : j ≠ i := by
            rintro rfl
            rw [at_i] at at_j
            cases at_j
            exact old (Call.place_of_file file)
          exact .inr ⟨j, d, (ch.look at_i j d).mpr (.inr ⟨ne, at_j⟩), file⟩

variable (h : Accounted initial s) (at_i : s.calls[i]? = some c) (running : c.phase.running)
include h at_i running

theorem ne_temp {p : Path} (not : p ∉ s.temps) : p ≠ c.temp := fun eq => not (eq ▸ (h.temp at_i running).1)

/-- What is no temp file does not become one. -/
theorem not_temp (ch : Change s i c s' c') {p : Path} (not : p ∉ s.temps) : p ∉ s'.temps :=
  fun mem => not ((ch.temps p (ne_temp h at_i running not)).mp mem)

theorem kept (ch : Change s i c s' c') {p : Path} {b : Bytes} (start : initial p = some b) :
    s'.disk p = some b ∧ p ∉ s'.temps := by
  obtain ⟨on_disk, not⟩ := h.kept p b start
  have other : c.place ≠ some p := by
    intro place
    obtain ⟨b', file⟩ := Call.file_of_place place
    simp [(h.placed at_i file).2.2] at start
  have same := (ch.outside (by simp [on_disk]) other (ne_temp h at_i running not)).1
  exact ⟨same.trans on_disk, ch.not_temp h at_i running not⟩

/-- Another call's file stays where it is. -/
theorem untouched (ch : Change s i c s' c') {j : Nat} {d : Call} {p : Path} {b : Bytes} (ne : j ≠ i)
    (at_j : s.calls[j]? = some d) (file : d.file = some (p, b)) :
    s'.disk p = some b ∧ p ∉ s'.temps ∧ initial p = none ∧ c'.place ≠ some p := by
  obtain ⟨on_disk, not, new⟩ := h.placed at_j file
  have other : c.place ≠ some p := fun place => ne (h.once at_j at_i (Call.place_of_file file) place)
  obtain ⟨same, elsewhere⟩ := ch.outside (by simp [on_disk]) other (ne_temp h at_i running not)
  exact ⟨same.trans on_disk, ch.not_temp h at_i running not, new, elsewhere⟩

/-- The file this call has now was its own before, or is new. -/
theorem own_file (ch : Change s i c s' c') {p : Path} {b : Bytes} (file : c'.file = some (p, b)) :
    s'.disk p = some b ∧ p ∉ s'.temps ∧ initial p = none := by
  refine ⟨ch.placed p b file, ?_⟩
  rcases ch.fresh p (Call.place_of_file file) with old | free
  · obtain ⟨b', file'⟩ := Call.file_of_place old
    obtain ⟨-, not, new⟩ := h.placed at_i file'
    exact ⟨ch.not_temp h at_i running not, new⟩
  · refine ⟨ch.not_temp h at_i running fun mem => h.present p mem free, ?_⟩
    cases start : initial p with
    | none => rfl
    | some b' => simp [(h.kept p b' start).1] at free

/-- A call that runs on has its temp file as it was. -/
theorem temp_held (ch : Change s i c s' c') {j : Nat} {d : Call} (at_j : s'.calls[j]? = some d)
    (runs : d.phase.running) : d.temp ∈ s'.temps ∧ s'.disk d.temp = some d.bytes := by
  rcases (ch.look at_i j d).mp at_j with ⟨rfl, rfl⟩ | ⟨ne, at_j⟩
  · have still : c.temp ∈ s'.temps := by
      by_contra gone
      exact (ch.tempGone gone).2 runs
    rw [ch.temp, ch.bytes]
    exact ⟨still, (ch.tempKept still).trans (h.temp at_i running).2⟩
  · obtain ⟨theirs, on_disk⟩ := h.temp at_j runs
    have other : d.temp ≠ c.temp := fun eq => ne (h.own at_j at_i runs running eq)
    have same := (ch.outside (by simp [on_disk]) (place_ne_temp h at_i theirs) other).1
    exact ⟨(ch.temps _ other).mpr theirs, same.trans on_disk⟩

theorem temp_present (ch : Change s i c s' c') {p : Path} (mem : p ∈ s'.temps) : s'.disk p ≠ none := by
  by_cases eq : p = c.temp
  · subst eq
    simp [ch.tempKept mem, (h.temp at_i running).2]
  · have mem' := (ch.temps p eq).mp mem
    rw [(ch.outside (h.present p mem') (place_ne_temp h at_i mem') eq).1]
    exact h.present p mem'

end Change

namespace Accounted
variable {initial : Path → Option Bytes} {s s' : Publisher} {i : Nat} {c c' : Call}

theorem change (h : Accounted initial s) (at_i : s.calls[i]? = some c) (running : c.phase.running)
    (ch : Change s i c s' c') : Accounted initial s' := by
  constructor
  · exact fun p b => ch.kept h at_i running
  · intro j d p b at_j file
    rcases (ch.look at_i j d).mp at_j with ⟨rfl, rfl⟩ | ⟨ne, at_j⟩
    · exact ch.own_file h at_i running file
    · obtain ⟨on_disk, not, new, -⟩ := ch.untouched h at_i running ne at_j file
      exact ⟨on_disk, not, new⟩
  · intro j k d e p at_j at_k first second
    rcases (ch.look at_i j d).mp at_j with ⟨rfl, rfl⟩ | ⟨ne, at_j⟩ <;>
      rcases (ch.look at_i k e).mp at_k with ⟨rfl, rfl⟩ | ⟨ne', at_k⟩
    · rfl
    · obtain ⟨b, file⟩ := Call.file_of_place second
      exact absurd first (ch.untouched h at_i running ne' at_k file).2.2.2
    · obtain ⟨b, file⟩ := Call.file_of_place first
      exact absurd second (ch.untouched h at_i running ne at_j file).2.2.2
    · exact h.once at_j at_k first second
  · exact fun p b => ch.all h at_i
  · exact ch.temp_held h at_i running
  · intro j k d e at_j at_k runs runs' same
    obtain ⟨d', at_j', runs_j, temp_j⟩ := ch.ran at_i running at_j runs
    obtain ⟨e', at_k', runs_k, temp_k⟩ := ch.ran at_i running at_k runs'
    exact h.own at_j' at_k' runs_j runs_k (by rw [temp_j, temp_k, same])
  · exact fun p => ch.temp_present h at_i running

/-- A phase is passed without touching the disk. -/
theorem setPhase (h : Accounted initial s) (at_i : s.calls[i]? = some c) (running : c.phase.running)
    {phase : Phase} (same : { c with phase := phase }.file = c.file) : Accounted initial (s.setPhase i c phase) := by
  have place : { c with phase := phase }.place = c.place := congrArg (Option.map Prod.fst) same
  have calls : (s.setPhase i c phase).calls = s.calls.set i { c with phase := phase } := rfl
  refine h.change at_i running ⟨calls, rfl, rfl, ?_, ?_, ?_, ?_, ?_, ?_, ?_⟩
  · exact fun p _ _ _ => rfl
  · exact fun p _ => Iff.rfl
  · exact fun p new => .inl (place ▸ new)
  · intro p b file
    exact (h.placed at_i (same ▸ file)).1
  · exact fun p old new => absurd (place.trans old) new
  · exact fun _ => rfl
  · exact fun gone => absurd (h.temp at_i running).1 gone

/-- A call reserves a name that nothing has. -/
theorem reserve (h : Accounted initial s) (at_i : s.calls[i]? = some c) {n : Nat} (phase : c.phase = .reserving n)
    {path : Path} (free : s.disk path = none) :
    Accounted initial { s.setPhase i c (.reserved path) with disk := Function.update s.disk path (some []) } := by
  have running : c.phase.running := by rw [phase]; rfl
  have none : c.place = none := by rw [Call.place, Call.file, phase]; rfl
  have away : c.temp ≠ path := by
    rintro rfl
    simp [(h.temp at_i running).2] at free
  have calls : { s.setPhase i c (.reserved path) with disk := Function.update s.disk path (some []) }.calls =
    s.calls.set i { c with phase := .reserved path } := rfl
  refine h.change at_i running ⟨calls, rfl, rfl, ?_, ?_, ?_, ?_, ?_, ?_, ?_⟩
  · intro p _ new _
    apply Function.update_of_ne
    rintro rfl
    exact new rfl
  · exact fun p _ => Iff.rfl
  · rintro p ⟨rfl⟩
    exact .inr free
  · rintro p b ⟨rfl⟩
    exact Function.update_self ..
  · intro p old
    simp [none] at old
  · exact fun _ => Function.update_of_ne away ..
  · exact fun gone => absurd (h.temp at_i running).1 gone

/-- A call moves its temp file onto its placeholder. -/
theorem rename (h : Accounted initial s) (at_i : s.calls[i]? = some c) {path : Path}
    (phase : c.phase = .permitted path) {bytes : Bytes} (held : s.disk c.temp = some bytes) :
    Accounted initial { s.setPhase i c (.completed path) with
      disk := Function.update (Function.update s.disk path (some bytes)) c.temp none
      temps := s.temps.filter (· ≠ c.temp) } := by
  have running : c.phase.running := by rw [phase]; rfl
  have file : c.file = some (path, []) := by rw [Call.file, phase]
  obtain ⟨mine, own⟩ := h.temp at_i running
  have same : bytes = c.bytes := Option.some.inj (held.symm.trans own)
  have away : path ≠ c.temp := by
    rintro rfl
    exact (h.placed at_i file).2.1 mine
  have calls : { s.setPhase i c (.completed path) with
      disk := Function.update (Function.update s.disk path (some bytes)) c.temp none
      temps := s.temps.filter (· ≠ c.temp) }.calls = s.calls.set i { c with phase := .completed path } := rfl
  refine h.change at_i running ⟨calls, rfl, rfl, ?_, ?_, ?_, ?_, ?_, ?_, ?_⟩
  · intro p _ new ne
    dsimp only
    rw [Function.update_of_ne ne, Function.update_of_ne]
    rintro rfl
    exact new rfl
  · intro p ne
    simp [ne]
  · rintro p ⟨rfl⟩
    exact .inl (Call.place_of_file file)
  · rintro p b ⟨rfl⟩
    dsimp only
    rw [Function.update_of_ne away, Function.update_self, same]
  · intro p old new
    cases (Call.place_of_file file).symm.trans old
    exact absurd rfl new
  · intro mem
    simp at mem
  · intro _
    exact ⟨Function.update_self .., by simp [Phase.running]⟩

/-- A call takes its placeholder back. -/
theorem release (h : Accounted initial s) (at_i : s.calls[i]? = some c) {path : Path}
    (phase : c.phase = .releasing path) :
    Accounted initial { s.setPhase i c .failed with disk := Function.update s.disk path none } := by
  have running : c.phase.running := by rw [phase]; rfl
  have file : c.file = some (path, []) := by rw [Call.file, phase]
  have away : c.temp ≠ path := by
    rintro rfl
    exact (h.placed at_i file).2.1 (h.temp at_i running).1
  have calls : { s.setPhase i c .failed with disk := Function.update s.disk path none }.calls =
    s.calls.set i { c with phase := .failed } := rfl
  refine h.change at_i running ⟨calls, rfl, rfl, ?_, ?_, ?_, ?_, ?_, ?_, ?_⟩
  · intro p old _ _
    apply Function.update_of_ne
    rintro rfl
    exact old (Call.place_of_file file)
  · exact fun p _ => Iff.rfl
  · rintro p ⟨⟩
  · rintro p b ⟨⟩
  · intro p old _
    cases (Call.place_of_file file).symm.trans old
    exact Function.update_self ..
  · exact fun _ => Function.update_of_ne away ..
  · exact fun gone => absurd (h.temp at_i running).1 gone

theorem advance (h : Accounted initial s) (at_i : s.calls[i]? = some c) (granted : Bool) :
    Accounted initial (s.advance i c granted) := by
  unfold Publisher.advance
  split
  · next n phase =>
    have running : c.phase.running := by rw [phase]; rfl
    have none : c.file = none := by rw [Call.file, phase]
    dsimp only
    split
    · exact h.setPhase at_i running none.symm
    · split
      · exact h.setPhase at_i running none.symm
      · next free => exact h.reserve at_i phase (by simpa using free)
  · next path phase =>
    have file : c.file = some (path, []) := by rw [Call.file, phase]
    apply h.setPhase at_i (by rw [phase]; rfl)
    rw [file]
    cases granted <;> rfl
  · next path phase =>
    have running : c.phase.running := by rw [phase]; rfl
    have file : c.file = some (path, []) := by rw [Call.file, phase]
    split
    · next bytes held =>
      split
      · exact h.rename at_i phase held
      · exact h.setPhase at_i running file.symm
    · exact h.setPhase at_i running file.symm
  · next path phase =>
    have file : c.file = some (path, []) := by rw [Call.file, phase]
    split
    · exact h.release at_i phase
    · exact h.setPhase at_i (by rw [phase]; rfl) file.symm
  · exact h
  · exact h
  · exact h

/-- A temp file is written where nothing was, or where one was already. -/
theorem stage (h : Accounted initial s) {temp : Path} {bytes : Bytes} (free : s.disk temp = none ∨ temp ∈ s.temps)
    (idle : ¬ s.Busy temp) : Accounted initial
      { s with disk := Function.update s.disk temp (some bytes), temps := temp :: s.temps } := by
  have elsewhere {p : Path} (taken : s.disk p ≠ none) (not : p ∉ s.temps) : p ≠ temp := by
    rintro rfl
    exact free.elim taken not
  constructor
  · intro p b start
    obtain ⟨on_disk, not⟩ := h.kept p b start
    have ne := elsewhere (by simp [on_disk]) not
    exact ⟨(Function.update_of_ne ne ..).trans on_disk, by simp [ne, not]⟩
  · intro i c p b at_i file
    obtain ⟨on_disk, not, new⟩ := h.placed at_i file
    have ne := elsewhere (by simp [on_disk]) not
    exact ⟨(Function.update_of_ne ne ..).trans on_disk, by simp [ne, not], new⟩
  · exact h.once
  · intro p b on_disk not
    obtain ⟨ne, not⟩ := not_or.mp (List.mem_cons.not.mp not)
    exact h.all p b ((Function.update_of_ne ne ..).symm.trans on_disk) not
  · intro i c at_i running
    obtain ⟨mem, held⟩ := h.temp at_i running
    have ne : c.temp ≠ temp := by
      rintro rfl
      exact idle ⟨c, List.mem_of_getElem? at_i, rfl, running⟩
    exact ⟨List.mem_cons_of_mem _ mem, (Function.update_of_ne ne ..).trans held⟩
  · exact h.own
  · intro p mem
    by_cases eq : p = temp
    · subst eq
      simp
    · dsimp only
      rw [Function.update_of_ne eq]
      exact h.present p (List.mem_of_ne_of_mem eq mem)

/-- A call is made for a temp file that no other call uses. -/
theorem call (h : Accounted initial s) {temp dest : Path} {bytes : Bytes} (held : s.disk temp = some bytes)
    (mem : temp ∈ s.temps) (idle : ¬ s.Busy temp) :
    Accounted initial { s with calls := s.calls ++ [⟨temp, dest, bytes, .reserving 0⟩] } := by
  let new : Call := ⟨temp, dest, bytes, .reserving 0⟩
  have look {j : Nat} {d : Call} (at_j : (s.calls ++ [new])[j]? = some d) :
      s.calls[j]? = some d ∨ (j = s.calls.length ∧ d = new) := by
    rw [List.getElem?_append] at at_j
    split at at_j
    · exact .inl at_j
    · next outside =>
      obtain ⟨last, eq⟩ := List.getElem?_eq_some_iff.mp at_j
      simp only [List.length_singleton] at last
      exact .inr ⟨by omega, by rw [← eq]; simp⟩
  have busy {j : Nat} {d : Call} (at_j : s.calls[j]? = some d) (running : d.phase.running) : d.temp ≠ temp :=
    fun eq => idle ⟨d, List.mem_of_getElem? at_j, eq, running⟩
  constructor
  · exact h.kept
  · intro j d p b at_j file
    rcases look at_j with at_j | ⟨-, rfl⟩
    · exact h.placed at_j file
    · cases file
  · intro j k d e p at_j at_k first second
    rcases look at_j with at_j | ⟨-, rfl⟩
    · rcases look at_k with at_k | ⟨-, rfl⟩
      · exact h.once at_j at_k first second
      · cases second
    · cases first
  · intro p b on_disk not
    rcases h.all p b on_disk not with start | ⟨j, d, at_j, file⟩
    · exact .inl start
    · refine .inr ⟨j, d, ?_, file⟩
      rw [List.getElem?_append_left (List.getElem?_eq_some_iff.mp at_j).1]
      exact at_j
  · intro j d at_j running
    rcases look at_j with at_j | ⟨-, rfl⟩
    · exact h.temp at_j running
    · exact ⟨mem, held⟩
  · intro j k d e at_j at_k runs runs' same
    rcases look at_j with at_j | ⟨rfl, rfl⟩ <;> rcases look at_k with at_k | ⟨rfl, rfl⟩
    · exact h.own at_j at_k runs runs' same
    · exact absurd same (busy at_j runs)
    · exact absurd same.symm (busy at_k runs')
    · rfl
  · exact h.present

theorem step (h : Accounted initial s) (event : PublishEvent) : Accounted initial (s.step event) := by
  cases event with
  | stage temp bytes =>
    unfold Publisher.step
    dsimp only
    split
    · next ok => exact h.stage ok.1 ok.2
    · exact h
  | call temp dest =>
    unfold Publisher.step
    dsimp only
    split
    · next bytes held =>
      split
      · next ok => exact h.call held ok.1 ok.2
      · exact h
    · exact h
  | step i granted =>
    unfold Publisher.step
    dsimp only
    split
    · next c at_i => exact h.advance at_i granted
    · exact h

end Accounted

def outsideTemps (disk : Path → Option Bytes) (temps : List Path) (p : Path) : Option Bytes :=
  if p ∈ temps then none else disk p

theorem run_accounted (disk : Path → Option Bytes) (temps : List Path) (events : List PublishEvent) :
    Accounted (outsideTemps disk temps) (.run disk temps events) := by
  apply TransitionRun.invariant _ fun _ event h => h.step event
  have start {p : Path} {b : Bytes} : outsideTemps disk temps p = some b ↔ p ∉ temps ∧ disk p = some b := by
    simp [outsideTemps]
  constructor
  · intro p b h
    obtain ⟨not, on_disk⟩ := start.mp h
    exact ⟨on_disk, fun mem => not (List.mem_filter.mp mem).1⟩
  · rintro i c p b ⟨⟩
  · rintro i j c d p ⟨⟩
  · intro p b on_disk not
    refine .inl (start.mpr ⟨fun mem => not (List.mem_filter.mpr ⟨mem, ?_⟩), on_disk⟩)
    simp [show disk p = some b from on_disk]
  · rintro i c ⟨⟩
  · rintro i j c d ⟨⟩
  · intro p mem
    have := (List.mem_filter.mp mem).2
    rintro gone
    simp [show disk p = none from gone] at this

/-- A call that has completed is not touched again. -/
theorem completed_step {s : Publisher} {i : Nat} {c : Call} {path : Path} (at_i : s.calls[i]? = some c)
    (phase : c.phase = .completed path) (event : PublishEvent) : (s.step event).calls[i]? = some c := by
  have inside : i < s.calls.length := (List.getElem?_eq_some_iff.mp at_i).1
  cases event with
  | stage temp bytes =>
    unfold Publisher.step
    dsimp only
    split <;> exact at_i
  | call temp dest =>
    unfold Publisher.step
    dsimp only
    split
    · split
      · exact (List.getElem?_append_left inside).trans at_i
      · exact at_i
    · exact at_i
  | step j granted =>
    unfold Publisher.step
    dsimp only
    split
    · next d at_j =>
      by_cases eq : j = i
      · subst eq
        rw [at_i] at at_j
        cases at_j
        unfold Publisher.advance
        rw [phase]
        exact at_i
      · have other (s' : Publisher) (d' : Call) (calls : s'.calls = s.calls.set j d') : s'.calls[i]? = some c := by
          rw [calls, List.getElem?_set_ne eq]
          exact at_i
        unfold Publisher.advance Publisher.setPhase
        dsimp only
        repeat' split
        all_goals first | exact at_i | exact other _ _ rfl
    · exact at_i

theorem completed_run {s : Publisher} {i : Nat} {c : Call} {path : Path} (at_i : s.calls[i]? = some c)
    (phase : c.phase = .completed path) (more : List PublishEvent) :
    (more.foldl Publisher.step s).calls[i]? = some c :=
  TransitionRun.invariant (I := fun s : Publisher => s.calls[i]? = some c) at_i
    (fun _ event h => completed_step h phase event) more

/-- Publishing never clobbers. Whatever calls are made and however their operations
interleave: the files that were there stay as they were; a call that completed has its
temp file's bytes at its path, from then on; no two have one path; and beside temp files
the disk holds nothing else but the placeholders of calls that still run, and those whose
removal the system refused: a call that failed has left nothing. -/
theorem publishing_never_clobbers (disk : Path → Option Bytes) (temps : List Path) (events : List PublishEvent) :
    (∀ p b, p ∉ temps → disk p = some b → (Publisher.run disk temps events).disk p = some b) ∧
    (∀ (i : Nat) (c : Call) (path : Path), (Publisher.run disk temps events).calls[i]? = some c →
      c.phase = .completed path → outsideTemps disk temps path = none ∧
      ∀ more, (Publisher.run disk temps (events ++ more)).disk path = some c.bytes) ∧
    (∀ (i j : Nat) (c d : Call) (path : Path), (Publisher.run disk temps events).calls[i]? = some c →
      (Publisher.run disk temps events).calls[j]? = some d →
      c.phase = .completed path → d.phase = .completed path → i = j) ∧
    (∀ p b, p ∉ (Publisher.run disk temps events).temps → ((Publisher.run disk temps events).disk p = some b ↔
      outsideTemps disk temps p = some b ∨
      ∃ c ∈ (Publisher.run disk temps events).calls, c.phase = .completed p ∧ c.bytes = b ∨
        (c.phase = .reserved p ∨ c.phase = .permitted p ∨ c.phase = .releasing p ∨ c.phase = .abandoned p) ∧ b = [])) := by
  have h := run_accounted disk temps events
  have file {c : Call} {path : Path} (phase : c.phase = .completed path) : c.file = some (path, c.bytes) := by
    rw [Call.file, phase]
  refine ⟨?_, ?_, ?_, ?_⟩
  · intro p b not on_disk
    exact (h.kept p b (by simp [outsideTemps, not, on_disk])).1
  · intro i c path at_i phase
    refine ⟨(h.placed at_i (file phase)).2.2, fun more => ?_⟩
    have still : (Publisher.run disk temps (events ++ more)).calls[i]? = some c := by
      unfold Publisher.run at at_i ⊢
      rw [List.foldl_append]
      exact completed_run at_i phase more
    exact ((run_accounted disk temps (events ++ more)).placed still (file phase)).1
  · intro i j c d path at_i at_j first second
    exact h.once at_i at_j (Call.place_of_file (file first)) (Call.place_of_file (file second))
  · intro p b not
    have owned (c : Call) : c.file = some (p, b) ↔ c.phase = .completed p ∧ c.bytes = b ∨
        (c.phase = .reserved p ∨ c.phase = .permitted p ∨ c.phase = .releasing p ∨ c.phase = .abandoned p) ∧ b = [] := by
      unfold Call.file
      cases c.phase <;> simp [eq_comm]
    constructor
    · intro on_disk
      rcases h.all p b on_disk not with start | ⟨i, c, at_i, file⟩
      · exact .inl start
      · exact .inr ⟨c, List.mem_of_getElem? at_i, (owned c).mp file⟩
    · rintro (start | ⟨c, mem, file⟩)
      · exact (h.kept p b start).1
      · obtain ⟨i, at_i⟩ := List.mem_iff_getElem?.mp mem
        exact (h.placed at_i ((owned c).mpr file)).1

/-- A failed call whose placeholder cannot be removed leaves it behind. -/
theorem refused_removal_leaves_placeholder :
    let s := Publisher.run (fun _ => none) []
      [.stage ['t'] [7], .call ['t'] ['d'], .step 0 true, .step 0 false, .step 0 false]
    (s.calls.map Call.phase) = [.abandoned ['d']] ∧ s.disk ['d'] = some [] ∧ ['d'] ∉ s.temps := by
  decide +kernel

end PeerBeam.Transfer
