import PeerBeam.Groups.Record
import PeerBeam.Transfer.FolderSafety

/-! What a receiver makes of a peer's names as path components, on either platform. -/
namespace PeerBeam.Transfer
open Groups (isControl)

def reserved : List Char := ['<', '>', ':', '"', '|', '?', '*', '/', '\\']

def substitute (c : Char) : Char := if c ∈ reserved then '_' else if isControl c then '_' else c

def strips (c : Char) : Bool := c = '.' ∨ c = ' '

/-- One `_` for the whole trailing run. -/
def closeTrailing (out : Path) : Path :=
  let keep := out.rdropWhile strips
  if keep.length < out.length then keep ++ ['_'] else out

def deviceWords : List Path := ["CON", "PRN", "AUX", "NUL", "CONIN$", "CONOUT$"].map String.toList

def com : Path := ['C', 'O', 'M']

def lpt : Path := ['L', 'P', 'T']

def portDigits : List Char := ['0', '1', '2', '3', '4', '5', '6', '7', '8', '9', '¹', '²', '³']

def stripPrefix (head text : Path) : Option Path := if head <+: text then some (text.drop head.length) else none

def isWindowsDevice (segment : Path) : Bool :=
  let upper := (segment.rdropWhile (· = ' ')).map Char.toUpper
  if upper ∈ deviceWords then true
  else
    match (stripPrefix com upper).or (stripPrefix lpt upper) with
    | some [digit] => digit ∈ portDigits
    | _ => false

def windowsSafeComponent (name : Path) : Path :=
  let out := closeTrailing (name.map substitute)
  let segment := out.takeWhile (· ≠ '.')
  if isWindowsDevice segment then segment ++ '_' :: out.dropWhile (· ≠ '.') else out

example : windowsSafeComponent "nul .txt".toList = "nul _.txt".toList := by decide +kernel
example : windowsSafeComponent "report. . ".toList = "report_".toList := by decide +kernel

def devices : List Path := deviceWords ++ portDigits.flatMap fun digit => [com ++ [digit], lpt ++ [digit]]

/-- What Win32 resolves to a device: the part before the first dot, without the case of its letters and the spaces
behind it. -/
def NamesDevice (name : Path) : Prop :=
  ∃ device ∈ devices, ∃ spaces, (name.takeWhile (· ≠ '.')).map Char.toUpper = device ++ List.replicate spaces ' '

structure WindowsName (name : Path) : Prop where
  legal : ∀ c ∈ name, c ∉ reserved ∧ isControl c = false
  ending : ∀ c ∈ name.getLast?, c ≠ '.' ∧ c ≠ ' '
  no_device : ¬ NamesDevice name

theorem stripPrefix_eq_some {head text rest : Path} : stripPrefix head text = some rest ↔ text = head ++ rest := by
  rw [stripPrefix]
  constructor
  · intro h
    split at h
    · next starts =>
      obtain ⟨rest', rfl⟩ := starts
      rw [List.drop_left] at h
      rw [Option.some.inj h]
    · cases h
  · rintro rfl
    rw [if_pos (List.prefix_append ..), List.drop_left]

theorem isWindowsDevice_iff (segment : Path) :
    isWindowsDevice segment = true ↔ (segment.rdropWhile (· = ' ')).map Char.toUpper ∈ devices := by
  rw [isWindowsDevice]
  generalize (segment.rdropWhile (· = ' ')).map Char.toUpper = upper
  have ports : upper ∈ devices ↔
      upper ∈ deviceWords ∨ ∃ digit ∈ portDigits, upper = com ++ [digit] ∨ upper = lpt ++ [digit] := by
    simp [devices]
  rw [ports]
  by_cases word : upper ∈ deviceWords
  · simp [word]
  · rw [if_neg word, or_iff_right word]
    cases first : stripPrefix com upper with
    | some rest =>
      obtain rfl := stripPrefix_eq_some.mp first
      rw [Option.some_or]
      constructor
      · intro h
        split at h
        · next digit eq =>
          cases eq
          exact ⟨digit, by simpa using h, .inl rfl⟩
        · cases h
      · rintro ⟨digit, port, same | other⟩
        · cases List.append_cancel_left same
          simpa using port
        · simp [com, lpt] at other
    | none =>
      have no_com (digit : Char) : upper ≠ com ++ [digit] := by
        intro eq
        rw [stripPrefix_eq_some.mpr eq] at first
        cases first
      rw [Option.none_or]
      constructor
      · intro h
        split at h
        · next digit eq => exact ⟨digit, by simpa using h, .inr (stripPrefix_eq_some.mp eq)⟩
        · cases h
      · rintro ⟨digit, port, same | other⟩
        · exact absurd same (no_com digit)
        · rw [stripPrefix_eq_some.mpr other]
          simpa using port

theorem toUpper_eq_space {c : Char} : c.toUpper = ' ' ↔ c = ' ' := by
  rw [Char.toUpper]
  split
  · next lower =>
    constructor
    · intro eq
      have value := congrArg Char.val eq
      have small : c.val.toNat ≤ 122 := lower.2
      have large : 97 ≤ c.val.toNat := lower.1
      have moved : (c.val + ('A'.val - 'a'.val)).toNat = 32 := congrArg UInt32.toNat value
      have shift : ('A'.val - 'a'.val).toNat = 2 ^ 32 - 32 := by decide
      rw [UInt32.toNat_add, shift] at moved
      omega
    · rintro rfl
      revert lower
      decide
  · exact Iff.rfl

/-- Case aside, a name resolves to a device exactly where the check finds one. -/
theorem namesDevice_iff (name : Path) : NamesDevice name ↔ isWindowsDevice (name.takeWhile (· ≠ '.')) = true := by
  rw [isWindowsDevice_iff, NamesDevice]
  generalize name.takeWhile (· ≠ '.') = segment
  have closed : ∀ device ∈ devices, device.rdropWhile (· = ' ') = device := by decide
  constructor
  · rintro ⟨device, known, spaces, upper⟩
    have trimmed : (segment.rdropWhile (· = ' ')).map Char.toUpper = (segment.map Char.toUpper).rdropWhile (· = ' ') := by
      rw [List.rdropWhile, List.rdropWhile, ← List.map_reverse, List.dropWhile_map, List.map_reverse]
      congr 3
      funext c
      exact decide_eq_decide.mpr toUpper_eq_space.symm
    have spaces_only : (device ++ List.replicate spaces ' ').rdropWhile (· = ' ') = device := by
      clear upper
      induction spaces with
      | zero => rw [List.replicate_zero, List.append_nil, closed device known]
      | succ spaces ih =>
        rw [List.replicate_succ', ← List.append_assoc, List.rdropWhile_concat_pos _ _ _ (by decide)]
        exact ih
    rw [trimmed, upper, spaces_only]
    exact known
  · intro known
    refine ⟨_, known, (segment.rtakeWhile (· = ' ')).length, ?_⟩
    have spaces : (segment.rtakeWhile (· = ' ')).map Char.toUpper =
        List.replicate (segment.rtakeWhile (· = ' ')).length ' ' := by
      rw [List.eq_replicate_iff, List.length_map]
      refine ⟨rfl, fun c mem => ?_⟩
      obtain ⟨space, here, rfl⟩ := List.mem_map.mp mem
      exact toUpper_eq_space.mpr (by simpa using List.mem_rtakeWhile_imp here)
    rw [← spaces, ← List.map_append, List.rdropWhile_append_rtakeWhile]

theorem substitute_legal (c : Char) : substitute c ∉ reserved ∧ isControl (substitute c) = false := by
  rw [substitute]
  split
  · decide
  · next free =>
    split
    · decide
    · next printable => exact ⟨free, by simpa using printable⟩

theorem closeTrailing_cases (out : Path) :
    (closeTrailing out = out ∧ ∀ c ∈ out.getLast?, ¬ strips c) ∨
      ∃ keep, keep <+: out ∧ closeTrailing out = keep ++ ['_'] := by
  rw [closeTrailing]
  by_cases shorter : (out.rdropWhile strips).length < out.length
  · rw [if_pos shorter]
    exact .inr ⟨_, List.rdropWhile_prefix _ _, rfl⟩
  · rw [if_neg shorter]
    refine .inl ⟨rfl, ?_⟩
    have whole : out.rdropWhile strips = out :=
      (List.rdropWhile_prefix _ _).eq_of_length_le (Nat.not_lt.mp shorter)
    intro c last
    obtain ⟨nonempty, rfl⟩ := List.mem_getLast?_eq_getLast last
    exact List.rdropWhile_eq_self_iff.mp whole nonempty

/-- A segment that is closed by `_` is no device. -/
theorem not_device_close (segment : Path) : isWindowsDevice (segment ++ ['_']) = false := by
  have ends : ∀ device ∈ devices, device.getLast? ≠ some '_' := by decide
  rw [Bool.eq_false_iff, Ne, isWindowsDevice_iff, List.rdropWhile_concat_neg _ _ _ (by decide), List.map_append]
  intro known
  refine ends _ known ?_
  rw [List.map_singleton, List.getLast?_concat]
  rfl

/-- The parts before and from the first dot. -/
theorem takeWhile_insert (out : Path) (inserted : Char) (plain : inserted ≠ '.') :
    (out.takeWhile (· ≠ '.') ++ inserted :: out.dropWhile (· ≠ '.')).takeWhile (· ≠ '.') =
      out.takeWhile (· ≠ '.') ++ [inserted] := by
  have before : ∀ c ∈ out.takeWhile (· ≠ '.'), decide (c ≠ '.') = true := fun c mem =>
    List.mem_takeWhile_imp (p := fun c => decide (c ≠ '.')) mem
  have behind : (out.dropWhile (· ≠ '.')).takeWhile (· ≠ '.') = [] := by
    cases tail : out.dropWhile (· ≠ '.') with
    | nil => rfl
    | cons c rest =>
      have dot := List.head?_dropWhile_not (fun c => decide (c ≠ '.')) out
      rw [tail] at dot
      exact List.takeWhile_cons_of_neg (by simpa using dot)
  rw [List.takeWhile_append_of_pos before, List.takeWhile_cons_of_pos (by simpa using plain), behind]

theorem windowsName_windowsSafeComponent (name : Path) : WindowsName (windowsSafeComponent name) := by
  have closed : ∀ c ∈ closeTrailing (name.map substitute), c ∉ reserved ∧ isControl c = false := by
    intro c mem
    rcases closeTrailing_cases (name.map substitute) with ⟨same, -⟩ | ⟨keep, starts, eq⟩
    · rw [same] at mem
      obtain ⟨old, -, rfl⟩ := List.mem_map.mp mem
      exact substitute_legal old
    · rw [eq] at mem
      rcases List.mem_append.mp mem with mem | mem
      · obtain ⟨old, -, rfl⟩ := List.mem_map.mp (starts.subset mem)
        exact substitute_legal old
      · rw [List.mem_singleton.mp mem]
        decide
  have ended : ∀ c ∈ (closeTrailing (name.map substitute)).getLast?, c ≠ '.' ∧ c ≠ ' ' := by
    intro c last
    rcases closeTrailing_cases (name.map substitute) with ⟨same, kept⟩ | ⟨keep, -, eq⟩
    · rw [same] at last
      simpa [strips] using kept c last
    · rw [eq, List.getLast?_concat] at last
      cases last
      decide
  rw [windowsSafeComponent]
  generalize closeTrailing (name.map substitute) = out at closed ended
  have parts : out.takeWhile (· ≠ '.') ++ out.dropWhile (· ≠ '.') = out := List.takeWhile_append_dropWhile
  by_cases device : isWindowsDevice (out.takeWhile (· ≠ '.')) = true
  · rw [if_pos device]
    refine ⟨?_, ?_, ?_⟩
    · intro c mem
      rcases List.mem_append.mp mem with mem | mem
      · exact closed c (parts ▸ List.mem_append_left _ mem)
      · rcases List.mem_cons.mp mem with rfl | mem
        · decide
        · exact closed c (parts ▸ List.mem_append_right _ mem)
    · intro c last
      rw [List.getLast?_append, List.getLast?_cons] at last
      cases tail : (out.dropWhile (· ≠ '.')).getLast? with
      | none =>
        rw [tail] at last
        cases last
        decide
      | some e =>
        rw [tail] at last
        cases last
        refine ended e ?_
        rw [← parts, List.getLast?_append, tail]
        rfl
    · rw [namesDevice_iff, takeWhile_insert out '_' (by decide), not_device_close]
      exact Bool.false_ne_true
  · rw [if_neg device]
    exact ⟨closed, ended, fun named => device ((namesDevice_iff out).mp named)⟩

/-- A name that Windows takes as it is is left alone. -/
theorem windowsSafeComponent_of_windowsName {name : Path} (fine : WindowsName name) : windowsSafeComponent name = name := by
  have same : name.map substitute = name := by
    rw [List.map_congr_left (g := id) ?_, List.map_id]
    intro c mem
    obtain ⟨free, printable⟩ := fine.legal c mem
    rw [substitute, if_neg free, if_neg (by simp [printable]), id]
  have whole : name.rdropWhile strips = name := by
    rw [List.rdropWhile_eq_self_iff]
    intro nonempty
    have last := fine.ending _ (List.getLast_mem_getLast? nonempty)
    simpa [strips] using last
  have closed : closeTrailing name = name := by
    rw [closeTrailing, whole]
    exact if_neg (Nat.lt_irrefl _)
  rw [windowsSafeComponent, same, closed, if_neg fun device => fine.no_device ((namesDevice_iff name).mpr device)]

theorem windowsSafeComponent_idem (name : Path) :
    windowsSafeComponent (windowsSafeComponent name) = windowsSafeComponent name :=
  windowsSafeComponent_of_windowsName (windowsName_windowsSafeComponent name)

theorem windowsSafeComponent_ne_nil {name : Path} (nonempty : name ≠ []) : windowsSafeComponent name ≠ [] := by
  have kept : closeTrailing (name.map substitute) ≠ [] := by
    rcases closeTrailing_cases (name.map substitute) with ⟨same, -⟩ | ⟨keep, -, eq⟩
    · rw [same]
      simpa using nonempty
    · simp [eq]
  rw [windowsSafeComponent]
  split
  · simp
  · exact kept

def safeComponent (windows : Bool) (name : Path) : Path := if windows then windowsSafeComponent name else name

theorem safeComponent_windows (name : Path) : safeComponent true name = windowsSafeComponent name := if_pos rfl

theorem safeComponent_unix (name : Path) : safeComponent false name = name := if_neg Bool.false_ne_true

/-- `sanitize_rel`, on a receiver of either platform. -/
def sanitizeRelOn (windows : Bool) (rel : Path) : Option Path :=
  if (components rel).any fun comp => comp.contains '\x00' || comp = ['.', '.'] then none
  else
    match (components rel).filter fun comp => comp ≠ [] ∧ comp ≠ ['.'] with
    | [] => none
    | parts => some (['/'].intercalate (parts.map (safeComponent windows)))

theorem sanitizeRelOn_unix (rel : Path) : sanitizeRelOn false rel = sanitizeRel rel := by
  have same : safeComponent false = id := funext safeComponent_unix
  rw [sanitizeRelOn, sanitizeRel, same]
  split
  · rfl
  · generalize (components rel).filter _ = parts
    cases parts with
    | nil => rfl
    | cons part parts => simp only [List.map_id]

structure SafePart (part : Path) : Prop extends Plain part where
  no_backslash : '\\' ∉ part
  no_nul : '\x00' ∉ part

theorem WindowsName.safePart {name : Path} (fine : WindowsName name) (nonempty : name ≠ []) : SafePart name where
  nonempty := nonempty
  not_dot := by
    rintro rfl
    exact (fine.ending '.' rfl).1 rfl
  not_dots := by
    rintro rfl
    exact (fine.ending '.' rfl).1 rfl
  no_slash slash := (fine.legal '/' slash).1 (by decide)
  no_backslash slash := (fine.legal '\\' slash).1 (by decide)
  no_nul nul := Bool.false_ne_true ((fine.legal '\x00' nul).2.symm.trans (by decide))

theorem safePart_safeComponent (windows : Bool) {part : Path} (safe : SafePart part) :
    SafePart (safeComponent windows part) := by
  cases windows with
  | false => rwa [safeComponent_unix]
  | true =>
    rw [safeComponent_windows]
    exact (windowsName_windowsSafeComponent part).safePart (windowsSafeComponent_ne_nil safe.nonempty)

theorem safeComponent_safeComponent (windows : Bool) (name : Path) :
    safeComponent windows (safeComponent windows name) = safeComponent windows name := by
  cases windows with
  | false => rw [safeComponent_unix, safeComponent_unix]
  | true => rw [safeComponent_windows, safeComponent_windows, windowsSafeComponent_idem]

/-- A path is cut into the parts it was joined of. -/
theorem components_intercalate {parts : List Path} (some_ : parts ≠ []) (safe : ∀ part ∈ parts, SafePart part) :
    components (['/'].intercalate parts) = parts := by
  have whole {part : Path} (fine : SafePart part) : ∀ c ∈ part, decide (c = '/' ∨ c = '\\') = false := by
    intro c mem
    rw [decide_eq_false_iff_not]
    rintro (rfl | rfl)
    · exact fine.no_slash mem
    · exact fine.no_backslash mem
  rw [components]
  induction parts with
  | nil => exact absurd rfl some_
  | cons part parts ih =>
    cases parts with
    | nil =>
      have one : ['/'].intercalate [part] = part := by simp
      rw [one]
      exact List.splitOnP_eq_singleton (whole (safe part (List.mem_singleton_self _)))
    | cons next parts =>
      have rest := ih (List.cons_ne_nil next parts) fun p mem => safe p (List.mem_cons_of_mem _ mem)
      rw [List.intercalate_cons_cons, List.append_assoc, List.singleton_append,
        List.splitOnP_append_cons_of_forall_mem (whole (safe part (List.mem_cons_self ..))) '/' (by decide), rest]

theorem sanitizeRelOn_of_safe {windows : Bool} {parts : List Path} (some_ : parts ≠ [])
    (safe : ∀ part ∈ parts, SafePart part) (kept : ∀ part ∈ parts, safeComponent windows part = part) :
    sanitizeRelOn windows (['/'].intercalate parts) = some (['/'].intercalate parts) := by
  have clean : ((components (['/'].intercalate parts)).any fun comp => comp.contains '\x00' || comp = ['.', '.']) = false := by
    rw [components_intercalate some_ safe, List.any_eq_false]
    intro part mem
    simp [(safe part mem).no_nul, (safe part mem).not_dots]
  have all : parts.filter (fun comp => comp ≠ [] ∧ comp ≠ ['.']) = parts := by
    rw [List.filter_eq_self]
    intro part mem
    simp [(safe part mem).nonempty, (safe part mem).not_dot]
  have same : parts.map (safeComponent windows) = parts := by
    rw [List.map_congr_left (g := id) kept, List.map_id]
  rw [sanitizeRelOn, clean, if_neg Bool.false_ne_true, components_intercalate some_ safe, all]
  cases parts with
  | nil => exact absurd rfl some_
  | cons part parts =>
    dsimp only
    rw [same]

/-- What a path is cut into, and what becomes of it. -/
theorem sanitizeRelOn_cases (windows : Bool) (rel : Path) :
    (sanitizeRelOn windows rel = none ∧
      ((∃ comp ∈ components rel, comp = ['.', '.'] ∨ '\x00' ∈ comp) ∨ ∀ comp ∈ components rel, comp = [] ∨ comp = ['.'])) ∨
    ∃ parts : List Path, parts ≠ [] ∧ (∀ part ∈ parts, part ∈ components rel ∧ SafePart part) ∧
      (∀ comp ∈ components rel, comp ≠ ['.', '.'] ∧ '\x00' ∉ comp) ∧
      sanitizeRelOn windows rel = some (['/'].intercalate (parts.map (safeComponent windows))) := by
  rw [sanitizeRelOn]
  by_cases bad : ((components rel).any fun comp => comp.contains '\x00' || comp = ['.', '.']) = true
  · rw [if_pos bad]
    obtain ⟨comp, mem, found⟩ := List.any_eq_true.mp bad
    refine .inl ⟨rfl, .inl ⟨comp, mem, ?_⟩⟩
    simpa [or_comm] using found
  · rw [if_neg bad]
    have clean (comp : Path) (mem : comp ∈ components rel) : comp ≠ ['.', '.'] ∧ '\x00' ∉ comp := by
      have fine := List.any_eq_false.mp (Bool.eq_false_iff.mpr bad) comp mem
      simpa [and_comm] using fine
    split
    · next none_left =>
      refine .inl ⟨rfl, .inr fun comp mem => ?_⟩
      have dropped := List.filter_eq_nil_iff.mp none_left comp mem
      simpa [or_iff_not_imp_left] using dropped
    · next some_ =>
      refine .inr ⟨_, some_, ?_, clean, rfl⟩
      intro part mem
      obtain ⟨comp, kept⟩ := List.mem_filter.mp mem
      have separators := not_mem_of_mem_splitOnP comp
      simp only [ne_eq, decide_eq_true_eq] at kept
      exact ⟨comp, ⟨⟨kept.1, kept.2, (clean part comp).1, fun slash => by simpa using separators '/' slash⟩,
        fun slash => by simpa using separators '\\' slash, (clean part comp).2⟩⟩

/-- A sanitised path is made of safe components and is sanitised to itself; nothing is left of a path exactly when a
component climbs or holds a NUL, or when there is none. On Windows every component is one that Windows takes as it is. -/
theorem sanitized_components_safe (windows : Bool) (rel name : Path) :
    (sanitizeRelOn windows rel = none ↔
      (∃ comp ∈ components rel, comp = ['.', '.'] ∨ '\x00' ∈ comp) ∨ ∀ comp ∈ components rel, comp = [] ∨ comp = ['.']) ∧
    (∀ out, sanitizeRelOn windows rel = some out →
      (∃ parts : List Path, parts ≠ [] ∧ out = ['/'].intercalate parts ∧
        ∀ part ∈ parts, SafePart part ∧ (windows = true → WindowsName part)) ∧
      sanitizeRelOn windows out = some out) ∧
    WindowsName (windowsSafeComponent name) ∧
    (name ≠ [] → windowsSafeComponent name ≠ []) ∧
    windowsSafeComponent (windowsSafeComponent name) = windowsSafeComponent name := by
  refine ⟨?_, ?_, windowsName_windowsSafeComponent name, windowsSafeComponent_ne_nil, windowsSafeComponent_idem name⟩
  · rcases sanitizeRelOn_cases windows rel with ⟨none_, why⟩ | ⟨parts, some_, safe, clean, eq⟩
    · exact iff_of_true none_ why
    · refine iff_of_false (by rw [eq]; exact Option.some_ne_none _) ?_
      rintro (⟨comp, mem, climbs | nul⟩ | idle)
      · exact (clean comp mem).1 climbs
      · exact (clean comp mem).2 nul
      · obtain ⟨part, mem⟩ := List.exists_mem_of_ne_nil parts some_
        obtain ⟨comp, plain⟩ := safe part mem
        rcases idle part comp with empty | dot
        · exact plain.nonempty empty
        · exact plain.not_dot dot
  · intro out sanitized
    rcases sanitizeRelOn_cases windows rel with ⟨none_, -⟩ | ⟨parts, some_, safe, -, eq⟩
    · rw [none_] at sanitized
      cases sanitized
    · rw [eq] at sanitized
      cases sanitized
      have each : ∀ part ∈ parts.map (safeComponent windows),
          SafePart part ∧ safeComponent windows part = part ∧ (windows = true → WindowsName part) := by
        intro part mem
        obtain ⟨comp, inside, rfl⟩ := List.mem_map.mp mem
        refine ⟨safePart_safeComponent windows (safe comp inside).2, safeComponent_safeComponent windows comp, ?_⟩
        rintro rfl
        rw [safeComponent_windows]
        exact windowsName_windowsSafeComponent comp
      have nonempty : parts.map (safeComponent windows) ≠ [] := by simpa using some_
      exact ⟨⟨_, nonempty, rfl, fun part mem => ⟨(each part mem).1, (each part mem).2.2⟩⟩,
        sanitizeRelOn_of_safe nonempty (fun part mem => (each part mem).1) fun part mem => (each part mem).2.1⟩

end PeerBeam.Transfer
