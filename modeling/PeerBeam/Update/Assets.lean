import Mathlib.Data.Bool.AllAny
import PeerBeam.Update.Versions

/-! What the file of a version is called on each platform, and where it is asked for. -/
namespace PeerBeam.Update

inductive Os
  | linux
  | windows
  | macOs
  deriving DecidableEq

inductive Arch
  | x86_64
  | aarch64
  deriving DecidableEq

inductive LinuxFormat
  | deb
  | rpm
  | appImage
  deriving DecidableEq

def assetName (os : Os) (arch : Arch) (linux : Option LinuxFormat) (version : String) :
    Except ResolveError String := do
  let v ← releaseVersion version
  match os with
  | .macOs => .ok s!"PeerBeam-{v}.dmg"
  | .windows =>
    let a := match arch with
      | .x86_64 => "x64"
      | .aarch64 => "arm64"
    .ok s!"peerbeam-{v}-windows-{a}-portable.zip"
  | .linux =>
    match linux with
    | none => .error .unknownLinuxFormat
    | some .deb =>
      let a := match arch with
        | .x86_64 => "amd64"
        | .aarch64 => "arm64"
      .ok s!"peerbeam-{v}-{a}.deb"
    | some format =>
      let a := match arch with
        | .x86_64 => "x86_64"
        | .aarch64 => "aarch64"
      let ext := if format = .rpm then "rpm" else "AppImage"
      .ok s!"peerbeam-{v}-{a}.{ext}"

def releaseDownloadBase : String := "https://github.com/alpha-neo-omega/PeerBeam/releases/download"

/-- The addresses a fetch asks for, before any redirect: the checksums, their signature and the file. -/
def addresses (os : Os) (arch : Arch) (linux : Option LinuxFormat) (version : String) :
    Except ResolveError (List String) := do
  let v ← releaseVersion version
  let name ← assetName os arch linux version
  let base := releaseDownloadBase ++ "/v" ++ v
  .ok [base ++ "/SHA256SUMS", base ++ "/SHA256SUMS.minisig", base ++ "/" ++ name]

/-- What may stand in a name and in a path without being escaped. -/
def Plain (c : Char) : Prop := c.isAlphanum = true ∨ c ∈ ['-', '.', '_']

instance : DecidablePred Plain := fun _ => inferInstanceAs (Decidable (_ ∨ _))

/-- A name that no system reads as more than one component, or as a folder's own or its parent. -/
structure SingleComponent (name : String) : Prop where
  nonempty : name ≠ ""
  own : name ≠ "."
  parent : name ≠ ".."
  whole : ∀ c ∈ name.toList, c ≠ '/' ∧ c ≠ '\\' ∧ c ≠ '\x00'

theorem eq_or_mem_of_mem_intercalate {sep : Char} {parts : List (List Char)} {c : Char}
    (mem : c ∈ [sep].intercalate parts) : c = sep ∨ ∃ part ∈ parts, c ∈ part := by
  induction parts with
  | nil => cases mem
  | cons part rest ih =>
    cases rest with
    | nil => exact .inr ⟨part, List.mem_cons_self, by simpa [List.intercalate] using mem⟩
    | cons next rest =>
      rw [List.intercalate_cons_of_ne_nil (List.cons_ne_nil _ _), List.mem_append, List.mem_append] at mem
      rcases mem with (mem | same) | mem
      · exact .inr ⟨part, List.mem_cons_self, mem⟩
      · exact .inl (List.mem_singleton.mp same)
      · rcases ih mem with same | ⟨other, own, mem⟩
        · exact .inl same
        · exact .inr ⟨other, List.mem_cons_of_mem _ own, mem⟩

theorem Version.mem_text (w : Version) {c : Char} (mem : c ∈ w.text) : Plain c := by
  have number (mem : c ∈ w.core) : Plain c := by
    rcases w.mem_core mem with digit | dot
    · exact .inl (by rw [Char.isAlphanum, digit, Bool.or_true])
    · exact .inr (by simp [dot])
  rw [text] at mem
  cases own : w.preText with
  | none => exact number (by simpa [own] using mem)
  | some pre =>
    rw [own, List.mem_append, List.mem_cons] at mem
    rcases mem with mem | hyphen | mem
    · exact number mem
    · exact .inr (by simp [hyphen])
    · obtain ⟨ids, some_, rfl⟩ := Option.map_eq_some_iff.mp own
      rcases eq_or_mem_of_mem_intercalate mem with dot | ⟨id, listed, mem⟩
      · exact .inr (by simp [dot])
      · rcases (ident_iff.mp ((w.idents ids some_).2 id listed)).2 c mem with alphanum | hyphen
        · exact .inl alphanum
        · exact .inr (by simp [hyphen])

/-- What only the platform decides about a name: the texts in front of the version and after it. -/
def around : Os → Arch → Option LinuxFormat → Option (String × String)
  | .macOs, _, _ => some ("PeerBeam-", ".dmg")
  | .windows, .x86_64, _ => some ("peerbeam-", "-windows-x64-portable.zip")
  | .windows, .aarch64, _ => some ("peerbeam-", "-windows-arm64-portable.zip")
  | .linux, _, none => none
  | .linux, .x86_64, some .deb => some ("peerbeam-", "-amd64.deb")
  | .linux, .aarch64, some .deb => some ("peerbeam-", "-arm64.deb")
  | .linux, .x86_64, some .rpm => some ("peerbeam-", "-x86_64.rpm")
  | .linux, .aarch64, some .rpm => some ("peerbeam-", "-aarch64.rpm")
  | .linux, .x86_64, some .appImage => some ("peerbeam-", "-x86_64.AppImage")
  | .linux, .aarch64, some .appImage => some ("peerbeam-", "-aarch64.AppImage")

theorem assetName_eq (os : Os) (arch : Arch) (linux : Option LinuxFormat) (version : String) :
    assetName os arch linux version = (releaseVersion version).bind fun v =>
      (around os arch linux).elim (.error .unknownLinuxFormat) fun (head, tail) => .ok (head ++ v ++ tail) := by
  rw [assetName.eq_def]
  refine congrArg _ (funext fun v => ?_)
  cases os with
  | macOs => rfl
  | windows => cases arch <;> simp [around, toString, String.append_assoc]
  | linux =>
    rcases linux with _ | _ | _ | _
    · rfl
    all_goals cases arch <;> simp [around, toString, String.append_assoc]

theorem assetName_ok {os : Os} {arch : Arch} {linux : Option LinuxFormat} {version name : String}
    (named : assetName os arch linux version = .ok name) : ∃ v head tail,
      releaseVersion version = .ok v ∧ around os arch linux = some (head, tail) ∧ name = head ++ v ++ tail := by
  rw [assetName_eq] at named
  cases accepted : releaseVersion version with
  | error e => rw [accepted] at named; cases named
  | ok v =>
    rw [accepted] at named
    cases platform : around os arch linux with
    | none => rw [platform] at named; cases named
    | some p => rw [platform] at named; cases named; exact ⟨v, p.1, p.2, rfl, rfl, rfl⟩

theorem around_plain {os : Os} {arch : Arch} {linux : Option LinuxFormat} {head tail : String}
    (platform : around os arch linux = some (head, tail)) :
    (∃ c rest, head.toList = c :: rest ∧ c ≠ '.') ∧ ∀ c ∈ (head ++ tail).toList, Plain c := by
  rcases os with _ | _ | _ <;> rcases arch with _ | _ <;> rcases linux with _ | _ | _ | _ <;> cases platform <;>
    exact ⟨⟨_, _, rfl, by decide⟩, List.all_iff_forall_prop.mp (by decide)⟩

theorem Plain.ne {c d : Char} (plain : Plain c) (other : ¬ Plain d) : c ≠ d := fun same => other (same ▸ plain)

theorem plain_of_releaseVersion {version v : String} (accepted : releaseVersion version = .ok v) :
    ∀ c ∈ v.toList, Plain c := by
  obtain ⟨_, w, -, rfl⟩ := releaseVersion_ok_iff.mp accepted
  intro c mem
  rw [String.toList_ofList] at mem
  exact w.mem_text mem

section
variable {os : Os} {arch : Arch} {linux : Option LinuxFormat} {version name : String}

theorem plain_of_assetName (named : assetName os arch linux version = .ok name) : ∀ c ∈ name.toList, Plain c := by
  obtain ⟨v, head, tail, accepted, platform, rfl⟩ := assetName_ok named
  obtain ⟨-, plain⟩ := around_plain platform
  simp only [String.toList_append, List.mem_append] at plain ⊢
  rintro c ((mem | mem) | mem)
  · exact plain c (.inl mem)
  · exact plain_of_releaseVersion accepted c mem
  · exact plain c (.inr mem)

theorem singleComponent_of_assetName (named : assetName os arch linux version = .ok name) : SingleComponent name := by
  have plain := plain_of_assetName named
  obtain ⟨v, head, tail, -, platform, rfl⟩ := assetName_ok named
  obtain ⟨⟨c, rest, first, letter⟩, -⟩ := around_plain platform
  have starts : (head ++ v ++ tail).toList = c :: (rest ++ v.toList ++ tail.toList) := by
    simp [String.toList_append, first]
  have apart {other : String} (start : other.toList.head? ≠ some c) : head ++ v ++ tail ≠ other := by
    intro same
    rw [← same, starts] at start
    exact start rfl
  refine ⟨apart (by simp), apart (by simpa using letter.symm), apart (by simpa using letter.symm), fun d mem => ?_⟩
  exact ⟨(plain d mem).ne (by decide), (plain d mem).ne (by decide), (plain d mem).ne (by decide)⟩

/-- On one platform a name is the name of one version. -/
theorem releaseVersion_eq_of_assetName {version' : String} (named : assetName os arch linux version = .ok name)
    (named' : assetName os arch linux version' = .ok name) : releaseVersion version = releaseVersion version' := by
  obtain ⟨v, head, tail, accepted, platform, rfl⟩ := assetName_ok named
  obtain ⟨v', head', tail', accepted', platform', same⟩ := assetName_ok named'
  obtain ⟨rfl, rfl⟩ := Prod.ext_iff.mp (Option.some.inj (platform.symm.trans platform'))
  rw [accepted, accepted', (String.append_right_inj _).mp ((String.append_left_inj _).mp same)]

end

end PeerBeam.Update
