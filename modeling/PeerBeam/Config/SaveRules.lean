import PeerBeam.Transfer.SafeComponents
import PeerBeam.Transfer.Stream

/-! Save rules: which received items a stored rule takes, and where an item goes. -/
namespace PeerBeam.Config
open Groups (isControl isWhitespace)
open Transfer (Path Plain WindowsName fileName reserved safeComponent stemExt windowsSafeComponent)

/-- `str::trim`. -/
def trimmed (text : Path) : Path := (text.dropWhile isWhitespace).rdropWhile isWhitespace

def undotted (text : Path) : Path := text.dropWhile (· = '.')

def eqIgnoreAsciiCase (a b : Path) : Bool := a.map Char.toLower = b.map Char.toLower

/-- `Path::extension` of a file name. -/
def extensionOf (name : Path) : Option Path := (fileName name).bind fun file => (stemExt file).2

structure SaveRule where
  device : Option String
  extension : Option Path
  minBytes : Option UInt64
  maxBytes : Option UInt64
  directory : Path
  deriving DecidableEq

inductive RuleError
  | emptyDirectory
  | notAbsolute (directory : Path)
  | parentTraversal (directory : Path)
  | missingParent (directory : Path)
  | blankCriterion (criterion : String)
  | impossibleRange (min max : UInt64)
  deriving DecidableEq

/-- What the platform says about a path, and the file system about a directory. -/
structure PathEnv where
  isAbsolute : Path → Bool
  /-- Some component is `..`. -/
  climbs : Path → Bool
  parent : Path → Option Path
  isDir : Path → Bool

def PathEnv.unix (isDir : Path → Bool) : PathEnv where
  isAbsolute p := p.head? = some '/'
  climbs p := (p.splitOn '/').contains ['.', '.']
  parent p := if Transfer.parent p = [] then none else some (Transfer.parent p)
  isDir := isDir

def checkRange : Option UInt64 → Option UInt64 → Except RuleError Unit
  | some min, some max => if max < min then .error (.impossibleRange min max) else .ok ()
  | _, _ => .ok ()

def checkDirectory (env : PathEnv) (dir : Path) : Except RuleError Unit :=
  if dir = [] then .error .emptyDirectory
  else if !env.isAbsolute dir then .error (.notAbsolute dir)
  else if env.climbs dir then .error (.parentTraversal dir)
  else
    match env.parent dir with
    | none => if env.isDir dir then .ok () else .error (.missingParent dir)
    | some parent => if parent = [] ∨ env.isDir parent then .ok () else .error (.missingParent parent)

namespace SaveRule

def validate (env : PathEnv) (r : SaveRule) : Except RuleError Unit :=
  if r.device.any fun d => trimmed d.toList = [] then .error (.blankCriterion "device")
  else if r.extension.any fun e => trimmed (undotted e) = [] then .error (.blankCriterion "extension")
  else
    match checkRange r.minBytes r.maxBytes with
    | .error e => .error e
    | .ok () => checkDirectory env (trimmed r.directory)

def wantedExtension (r : SaveRule) : Option Path :=
  (r.extension.map fun e => undotted (trimmed e)).filter (· ≠ [])

def «matches» (r : SaveRule) (device : String) (name : Path) (size : UInt64) : Bool :=
  r.device.all (· = device) &&
  (r.wantedExtension.all fun want => (extensionOf name).any (eqIgnoreAsciiCase · want)) &&
  r.minBytes.all (· ≤ size) && r.maxBytes.all (size ≤ ·)

end SaveRule

def matchingDirectory (rules : List SaveRule) (device : String) (name : Path) (size : UInt64) : Option Path :=
  (rules.find? (·.matches device name size)).map fun r => trimmed r.directory

structure Fallback where
  ruleDirectory : Path
  reason : String
  deriving DecidableEq

structure Destination where
  directory : Path
  fallback : Option Fallback
  deriving DecidableEq

/-- Where an item goes; `writable` is what the probe of a directory answers. -/
def destination (writable : Path → Except String Unit) (rules : List SaveRule) (saveDirectory : Path)
    (device : String) (name : Path) (size : UInt64) : Destination :=
  match matchingDirectory rules device name size with
  | none => ⟨saveDirectory, none⟩
  | some dir =>
    match writable dir with
    | .ok () => ⟨dir, none⟩
    | .error reason => ⟨saveDirectory, some ⟨dir, reason⟩⟩

/-- The names that files are received under: one ordinary component, rewritten for the platform. -/
def Sanitised (windows : Bool) (name : Path) : Prop :=
  ∃ base, Plain base ∧ (windows = true → '\\' ∉ base) ∧ name = safeComponent windows base

/-- On Unix they are what `sanitize_file_name` makes of a name. -/
theorem sanitised_unix (name : Path) : Sanitised false name ↔ ∃ raw, Transfer.sanitizeFileName raw = name := by
  constructor
  · rintro ⟨base, plain, -, eq⟩
    rw [Transfer.safeComponent_unix] at eq
    subst eq
    have file : fileName ([] ++ '/' :: name) = some name := Transfer.fileName_of_plain plain
    exact ⟨[] ++ '/' :: name, by rw [Transfer.sanitizeFileName, file, Option.getD_some]⟩
  · rintro ⟨raw, rfl⟩
    have plain : Plain (Transfer.sanitizeFileName raw) := by
      rw [Transfer.sanitizeFileName]
      cases file : fileName raw with
      | none => exact ⟨by decide +kernel, by decide +kernel, by decide +kernel, by decide +kernel⟩
      | some base => exact Transfer.plain_of_fileName file
    refine ⟨_, plain, ?_, (Transfer.safeComponent_unix _).symm⟩
    intro windows
    cases windows

theorem Sanitised.plain {windows : Bool} {name : Path} (sanitised : Sanitised windows name) : Plain name := by
  obtain ⟨base, plain, -, rfl⟩ := sanitised
  cases windows with
  | false => rwa [Transfer.safeComponent_unix]
  | true =>
    rw [Transfer.safeComponent_windows]
    have fine := Transfer.windowsName_windowsSafeComponent base
    exact (fine.safePart (Transfer.windowsSafeComponent_ne_nil plain.nonempty)).toPlain

def Nameable (windows : Bool) (c : Char) : Prop :=
  c ≠ '.' ∧ c ≠ '/' ∧ (windows = true → c ∉ reserved ∧ isControl c = false)

theorem fileName_plain {name : Path} (plain : Plain name) : fileName name = some name := by
  have kept : decide (name ≠ [] ∧ name ≠ ['.']) = true := by simp [plain.nonempty, plain.not_dot]
  rw [fileName, List.splitOn_eq_singleton plain.no_slash, List.filter_singleton, kept]
  simp only [cond_true, List.getLast?_singleton]
  split
  · next eq => exact absurd (Option.some.inj eq) plain.not_dots
  · rfl

theorem extensionOf_of_sanitised {windows : Bool} {name : Path} (sanitised : Sanitised windows name) :
    extensionOf name = (stemExt name).2 := by
  rw [extensionOf, fileName_plain sanitised.plain, Option.bind_some]

theorem stemExt_some {name ext : Path} (h : (stemExt name).2 = some ext) : '.' ∉ ext ∧ ∀ c ∈ ext, c ∈ name := by
  rw [stemExt, Transfer.rsplitDot, List.span_eq_takeWhile_dropWhile] at h
  cases rest : name.reverse.dropWhile (· ≠ '.') with
  | nil =>
    rw [rest] at h
    cases h
  | cons dot stem =>
    rw [rest] at h
    dsimp only at h
    split at h
    · cases h
    · cases h
      refine ⟨fun dot => ?_, fun c mem => ?_⟩
      · have plain := List.mem_takeWhile_imp (List.mem_reverse.mp dot)
        simp at plain
      · exact List.mem_reverse.mp (List.takeWhile_subset _ (List.mem_reverse.mp mem))

theorem stemExt_dot {stem ext : Path} (some_ : stem ≠ []) (plain : '.' ∉ ext) :
    stemExt (stem ++ '.' :: ext) = (stem, some ext) := by
  have last : ∀ c ∈ ext.reverse, decide (c ≠ '.') = true := by
    intro c mem
    exact decide_eq_true fun dot => plain (dot ▸ List.mem_reverse.mp mem)
  have text : (stem ++ '.' :: ext).reverse = ext.reverse ++ '.' :: stem.reverse := by simp
  rw [stemExt, Transfer.rsplitDot, List.span_eq_takeWhile_dropWhile, text, List.takeWhile_append_of_pos last,
    List.dropWhile_append_of_pos last, List.takeWhile_cons_of_neg (by decide), List.dropWhile_cons_of_neg (by decide)]
  simp [some_]

/-- The extension of a sanitised name. -/
theorem nameable_of_extension {windows : Bool} {name ext : Path} (sanitised : Sanitised windows name)
    (held : extensionOf name = some ext) : ∀ c ∈ ext, Nameable windows c := by
  rw [extensionOf_of_sanitised sanitised] at held
  obtain ⟨no_dot, within⟩ := stemExt_some held
  intro c mem
  refine ⟨fun dot => no_dot (dot ▸ mem), fun slash => sanitised.plain.no_slash (slash ▸ within c mem), ?_⟩
  rintro rfl
  obtain ⟨base, -, -, rfl⟩ := sanitised
  rw [Transfer.safeComponent_windows] at within
  exact (Transfer.windowsName_windowsSafeComponent base).legal c (within c mem)

/-- A name with a given extension. -/
theorem exists_extension (windows : Bool) {ext : Path} (nonempty : ext ≠ []) (nameable : ∀ c ∈ ext, Nameable windows c)
    (closed : ext.getLast nonempty ≠ ' ') : ∃ name, Sanitised windows name ∧ extensionOf name = some ext := by
  have no_dot : '.' ∉ ext := fun mem => (nameable '.' mem).1 rfl
  have no_slash : '/' ∉ ext := fun mem => (nameable '/' mem).2.1 rfl
  have plain : Plain (['x'] ++ '.' :: ext) := ⟨by simp, by simp, by simp, by simp [no_slash]⟩
  have sanitised : Sanitised windows (['x'] ++ '.' :: ext) := by
    cases windows with
    | false => exact ⟨_, plain, nofun, (Transfer.safeComponent_unix _).symm⟩
    | true =>
      have fine : WindowsName (['x'] ++ '.' :: ext) := by
        refine ⟨?_, ?_, ?_⟩
        · intro c mem
          rcases List.mem_append.mp mem with mem | mem
          · rw [List.mem_singleton.mp mem]
            decide
          · rcases List.mem_cons.mp mem with rfl | mem
            · decide
            · exact (nameable c mem).2.2 rfl
        · intro c last
          have whole : (['x'] ++ '.' :: ext).getLast? = some (ext.getLast nonempty) := by
            simp [List.getLast?_cons, List.getLast?_eq_some_getLast nonempty]
          rw [whole] at last
          cases last
          exact ⟨(nameable _ (List.getLast_mem nonempty)).1, closed⟩
        · rw [Transfer.namesDevice_iff]
          have segment : (['x'] ++ '.' :: ext).takeWhile (· ≠ '.') = ['x'] := by simp
          rw [segment]
          decide +kernel
      have no_backslash : '\\' ∉ ['x'] ++ '.' :: ext := fun mem => (fine.legal '\\' mem).1 (by decide)
      refine ⟨_, plain, fun _ => no_backslash, ?_⟩
      rw [Transfer.safeComponent_windows, Transfer.windowsSafeComponent_of_windowsName fine]
  refine ⟨_, sanitised, ?_⟩
  rw [extensionOf_of_sanitised sanitised, stemExt_dot (List.cons_ne_nil _ _) no_dot]

theorem nameable_of_isAlpha {c : Char} (letter : c.isAlpha = true) (windows : Bool) : Nameable windows c := by
  refine ⟨?_, ?_, fun _ => ⟨fun mem => ?_, ?_⟩⟩
  · rintro rfl
    cases letter
  · rintro rfl
    cases letter
  · have others : (reserved.all fun d => !d.isAlpha) = true := by decide
    have other := List.all_eq_true.mp others c mem
    rw [letter] at other
    cases other
  · have range : 65 ≤ c.toNat ∧ c.toNat ≤ 90 ∨ 97 ≤ c.toNat ∧ c.toNat ≤ 122 := by
      rw [Char.isAlpha, Char.isUpper, Char.isLower] at letter
      simpa [UInt32.le_iff_toNat_le] using letter
    simp [isControl]
    omega

theorem nameable_of_toLower {windows : Bool} {c d : Char} (same : c.toLower = d.toLower) (fine : Nameable windows c) :
    Nameable windows d := by
  by_cases letter : d.isAlpha = true
  · exact nameable_of_isAlpha letter windows
  · have other : ¬ c.isAlpha = true := by
      rwa [← Char.isLower_toLower_eq_isAlpha, same, Char.isLower_toLower_eq_isAlpha]
    have no_upper {e : Char} (e_other : ¬ e.isAlpha = true) : ¬ e.isUpper = true := by
      intro upper
      rw [Char.isAlpha, upper] at e_other
      exact e_other rfl
    rw [Char.toLower_eq_of_not_isUpper (no_upper other), Char.toLower_eq_of_not_isUpper (no_upper letter)] at same
    exact same ▸ fine

theorem nameable_of_eqIgnoreAsciiCase {windows : Bool} {a b : Path} (same : eqIgnoreAsciiCase a b = true)
    (fine : ∀ c ∈ a, Nameable windows c) : ∀ c ∈ b, Nameable windows c := by
  intro d mem
  have texts : a.map Char.toLower = b.map Char.toLower := of_decide_eq_true same
  have lower : d.toLower ∈ a.map Char.toLower := texts ▸ List.mem_map_of_mem mem
  obtain ⟨c, here, eq⟩ := List.mem_map.mp lower
  exact nameable_of_toLower eq (fine c here)

namespace SaveRule

/-- What an extension criterion asks for: blanks around it and dots before it do not count. -/
def asked (e : Path) : Path := undotted (trimmed e)

structure Holds (r : SaveRule) (device : String) (name : Path) (size : UInt64) : Prop where
  device : ∀ d ∈ r.device, d = device
  extension : ∀ e ∈ r.extension, ∃ have', extensionOf name = some have' ∧ eqIgnoreAsciiCase have' (asked e) = true
  min : ∀ m ∈ r.minBytes, m ≤ size
  max : ∀ m ∈ r.maxBytes, size ≤ m

/-- The rule takes exactly the items its criteria name, and there is such an item. -/
def Meant (windows : Bool) (r : SaveRule) : Prop :=
  (∀ device name size, Sanitised windows name → (r.matches device name size = true ↔ r.Holds device name size)) ∧
  ∃ device name size, Sanitised windows name ∧ r.matches device name size = true

/-- Something is left of the extension, and a sanitised name can have it. -/
def ExtensionFits (windows : Bool) (r : SaveRule) : Prop :=
  ∀ e ∈ r.extension, asked e ≠ [] ∧ ∀ c ∈ asked e, Nameable windows c

variable {r : SaveRule} {windows : Bool}

theorem matches_iff (device : String) (name : Path) (size : UInt64) : r.matches device name size = true ↔
    (∀ d ∈ r.device, d = device) ∧
    (∀ want ∈ r.wantedExtension, ∃ have', extensionOf name = some have' ∧ eqIgnoreAsciiCase have' want = true) ∧
    (∀ m ∈ r.minBytes, m ≤ size) ∧ ∀ m ∈ r.maxBytes, size ≤ m := by
  simp [SaveRule.matches, Option.all_eq_true, Option.any_eq_true, and_assoc]

theorem wantedExtension_of_fits (fits : r.ExtensionFits windows) : r.wantedExtension = r.extension.map asked := by
  rw [wantedExtension]
  cases ext : r.extension with
  | none => rfl
  | some e =>
    have left : decide (asked e ≠ []) = true := decide_eq_true (fits e ext).1
    exact Option.filter_some_pos left

theorem wantedExtension_of_blank {e : Path} (ext : r.extension = some e) (blank : asked e = []) :
    r.wantedExtension = none := by
  have nothing : decide (asked e ≠ []) = false := by simp [blank]
  rw [wantedExtension, ext, Option.map_some]
  exact Option.filter_some_neg nothing

theorem checkRange_of_validate {env : PathEnv} (accepted : r.validate env = .ok ()) :
    checkRange r.minBytes r.maxBytes = .ok () := by
  rw [validate] at accepted
  split at accepted
  · cases accepted
  · split at accepted
    · cases accepted
    · split at accepted
      · cases accepted
      · next inRange => exact inRange

/-- Some size is within a range that is accepted. -/
theorem exists_size {min max : Option UInt64} (inRange : checkRange min max = .ok ()) :
    ∃ size, (∀ m ∈ min, m ≤ size) ∧ ∀ m ∈ max, size ≤ m := by
  cases min with
  | none => exact ⟨0, nofun, fun m _ => UInt64.zero_le⟩
  | some min =>
    refine ⟨min, fun m mem => (Option.mem_some.mp mem) ▸ UInt64.le_refl min, fun m mem => ?_⟩
    cases mem
    rw [checkRange] at inRange
    split at inRange
    · cases inRange
    · next ordered => exact UInt64.not_lt.mp ordered

/-- What is asked for does not end in a blank. -/
theorem getLast_asked {e : Path} (nonempty : asked e ≠ []) : (asked e).getLast nonempty ≠ ' ' := by
  obtain ⟨dots, parts⟩ : asked e <:+ trimmed e := List.dropWhile_suffix _
  have some_ : trimmed e ≠ [] := by
    intro empty
    rw [empty, List.append_eq_nil_iff] at parts
    exact nonempty parts.2
  have same : (asked e).getLast? = (trimmed e).getLast? := by
    rw [← parts, List.getLast?_append_of_ne_nil _ nonempty]
  intro blank
  rw [List.getLast?_eq_some_getLast nonempty, List.getLast?_eq_some_getLast some_, blank] at same
  have last : ¬ isWhitespace ((trimmed e).getLast some_) = true :=
    List.rdropWhile_last_not isWhitespace (e.dropWhile isWhitespace) some_
  rw [← Option.some.inj same] at last
  exact last (by decide)

theorem sanitised_x (windows : Bool) : Sanitised windows ['x'] := by
  refine ⟨['x'], ⟨by decide, by decide, by decide, by decide⟩, fun _ => by decide, ?_⟩
  cases windows with
  | false => rw [Transfer.safeComponent_unix]
  | true =>
    rw [Transfer.safeComponent_windows]
    decide +kernel

/-- A rule is meant as it is written exactly when something is left of its extension that a name can have. -/
theorem meant_iff {env : PathEnv} (accepted : r.validate env = .ok ()) : r.Meant windows ↔ r.ExtensionFits windows := by
  constructor
  · rintro ⟨tested, device, name, size, sanitised, taken⟩ e ext
    obtain ⟨have', held, same⟩ := ((tested device name size sanitised).mp taken).extension e ext
    refine ⟨fun blank => ?_, nameable_of_eqIgnoreAsciiCase same (nameable_of_extension sanitised held)⟩
    -- the criterion is not tested, and a name without an extension is taken too
    obtain ⟨own, -, least, most⟩ := (matches_iff device name size).mp taken
    have bare : r.matches device ['x'] size = true := by
      rw [matches_iff, wantedExtension_of_blank ext blank]
      exact ⟨own, nofun, least, most⟩
    obtain ⟨have', held, -⟩ := ((tested device ['x'] size (sanitised_x windows)).mp bare).extension e ext
    have none_ : extensionOf ['x'] = none := by decide
    rw [none_] at held
    cases held
  · intro fits
    have wanted := wantedExtension_of_fits fits
    refine ⟨fun device name size _ => ?_, ?_⟩
    · rw [matches_iff, wanted]
      constructor
      · rintro ⟨own, ext, least, most⟩
        exact ⟨own, fun e mem => ext (asked e) (Option.mem_map_of_mem asked mem), least, most⟩
      · rintro ⟨own, ext, least, most⟩
        refine ⟨own, fun want mem => ?_, least, most⟩
        obtain ⟨e, held, rfl⟩ := Option.mem_map.mp mem
        exact ext e held
    · obtain ⟨size, least, most⟩ := exists_size (checkRange_of_validate accepted)
      have own : ∀ d ∈ r.device, d = r.device.getD "" := by
        intro d mem
        rw [mem, Option.getD_some]
      cases ext : r.extension with
      | none =>
        refine ⟨r.device.getD "", ['x'], size, sanitised_x windows, ?_⟩
        rw [matches_iff, wanted, ext]
        exact ⟨own, nofun, least, most⟩
      | some e =>
        obtain ⟨left, nameable⟩ := fits e ext
        obtain ⟨name, sanitised, held⟩ := exists_extension windows left nameable (getLast_asked left)
        refine ⟨r.device.getD "", name, size, sanitised, ?_⟩
        rw [matches_iff, wanted, ext]
        refine ⟨own, fun want mem => ?_, least, most⟩
        cases mem
        exact ⟨asked e, held, decide_eq_true rfl⟩

end SaveRule

def FirstMatch (rules : List SaveRule) (device : String) (name : Path) (size : UInt64) (r : SaveRule) : Prop :=
  ∃ before after, rules = before ++ r :: after ∧ r.matches device name size = true ∧
    ∀ earlier ∈ before, earlier.matches device name size = false

inductive Goes (writable : Path → Except String Unit) (rules : List SaveRule) (saveDirectory : Path) (device : String)
    (name : Path) (size : UInt64) : Destination → Prop
  | sorted {r : SaveRule} : FirstMatch rules device name size r → writable (trimmed r.directory) = .ok () →
    Goes writable rules saveDirectory device name size ⟨trimmed r.directory, none⟩
  | fallback {r : SaveRule} {reason : String} : FirstMatch rules device name size r →
    writable (trimmed r.directory) = .error reason →
    Goes writable rules saveDirectory device name size ⟨saveDirectory, some ⟨trimmed r.directory, reason⟩⟩
  | plain : (∀ r ∈ rules, r.matches device name size = false) →
    Goes writable rules saveDirectory device name size ⟨saveDirectory, none⟩

theorem firstMatch_iff {rules : List SaveRule} {device : String} {name : Path} {size : UInt64} {r : SaveRule} :
    FirstMatch rules device name size r ↔ rules.find? (·.matches device name size) = some r := by
  rw [List.find?_eq_some_iff_append]
  constructor
  · rintro ⟨before, after, parts, taken, earlier⟩
    exact ⟨taken, before, after, parts, fun r mem => by simp [earlier r mem]⟩
  · rintro ⟨taken, before, after, parts, earlier⟩
    exact ⟨before, after, parts, taken, fun r mem => by simpa using earlier r mem⟩

/-- An item goes one of the three ways, and no other. -/
theorem destination_iff (writable : Path → Except String Unit) (rules : List SaveRule) (saveDirectory : Path)
    (device : String) (name : Path) (size : UInt64) (d : Destination) :
    destination writable rules saveDirectory device name size = d ↔
      Goes writable rules saveDirectory device name size d := by
  constructor
  · rintro rfl
    rw [destination, matchingDirectory]
    cases found : rules.find? (·.matches device name size) with
    | none => exact .plain fun r mem => by simpa using List.find?_eq_none.mp found r mem
    | some r =>
      have first := firstMatch_iff.mpr found
      rw [Option.map_some]
      dsimp only
      split
      · next usable => exact .sorted first usable
      · next reason failed => exact .fallback first failed
  · intro goes
    rw [destination, matchingDirectory]
    cases goes with
    | sorted first usable =>
      rw [firstMatch_iff.mp first, Option.map_some]
      dsimp only
      rw [usable]
    | fallback first failed =>
      rw [firstMatch_iff.mp first, Option.map_some]
      dsimp only
      rw [failed]
    | plain untaken =>
      rw [List.find?_eq_none.mpr fun r mem => by simp [untaken r mem]]
      rfl

/-- A rule that is accepted is tested by each criterion it has and takes some item exactly when something is left of its
extension that a sanitised name can have. Whatever the rules, an item goes to the first rule's directory, to the save
directory with that rule named, or to the save directory because no rule takes it. -/
theorem rule_meant_iff (windows : Bool) (env : PathEnv) (writable : Path → Except String Unit) (r : SaveRule)
    (accepted : r.validate env = .ok ()) :
    (r.Meant windows ↔ r.ExtensionFits windows) ∧
    ∀ rules saveDirectory device name size d, destination writable rules saveDirectory device name size = d ↔
      Goes writable rules saveDirectory device name size d :=
  ⟨r.meant_iff accepted, destination_iff writable⟩

/-- A rule for `.tar`, and a disk with one directory. -/
theorem tar_rule_meant :
    let r : SaveRule := ⟨some "pb-alice", some ".tar".toList, none, some 4096, "/srv/tars".toList⟩
    r.Meant false :=
  ((rule_meant_iff false (.unix (· = "/srv".toList)) (fun _ => .ok ())
    ⟨some "pb-alice", some ".tar".toList, none, some 4096, "/srv/tars".toList⟩ (by decide +kernel)).1).mpr (by
      intro e ext
      cases ext
      have left : SaveRule.asked ".tar".toList = ['t', 'a', 'r'] := by decide +kernel
      rw [left]
      refine ⟨by decide, fun c mem => ?_⟩
      simp only [List.mem_cons, List.not_mem_nil, or_false] at mem
      rcases mem with rfl | rfl | rfl <;> exact ⟨by decide, by decide, nofun⟩)

/-- A criterion of a blank and a dot is accepted, and not tested. -/
theorem blank_dot_takes_all :
    let r : SaveRule := ⟨none, some [' ', '.'], none, none, "/srv/pdfs".toList⟩
    r.validate (.unix (· = "/srv".toList)) = .ok () ∧ Sanitised false "photo.jpg".toList ∧
      r.matches "pb-bob" "photo.jpg".toList 10 = true ∧ ¬ r.Meant false := by
  intro r
  have plain : Plain "photo.jpg".toList := ⟨by decide +kernel, by decide +kernel, by decide +kernel, by decide +kernel⟩
  have sanitised : Sanitised false "photo.jpg".toList := ⟨_, plain, nofun, (Transfer.safeComponent_unix _).symm⟩
  have taken : r.matches "pb-bob" "photo.jpg".toList 10 = true := by decide +kernel
  refine ⟨by decide +kernel, sanitised, taken, fun meant => ?_⟩
  obtain ⟨have', held, same⟩ := ((meant.1 _ _ _ sanitised).mp taken).extension [' ', '.'] rfl
  have jpg : extensionOf "photo.jpg".toList = some "jpg".toList := by decide +kernel
  rw [jpg] at held
  cases held
  revert same
  decide +kernel

end PeerBeam.Config
