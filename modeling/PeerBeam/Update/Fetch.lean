import PeerBeam.Lib.Pool
import PeerBeam.Update.Verify

/-! Fetching a release: the checks before it, the stream into the `.part` file that every fetch of the
release shares, and the rename. What the server answers and when a file call fails is arbitrary. -/
namespace PeerBeam.Update

inductive DownloadError
  | resolve (why : String)
  | unverified (e : VerifyError)
  | unreachable (what why : String)
  | redirectedOffHost (host : String)
  | insecureRedirect (host : String)
  | io (path why : String)
  deriving DecidableEq

/-- A name of the directory stands for a file, which another name may share, or for a directory. -/
inductive Entry
  | file (node : ℕ)
  | directory
  deriving DecidableEq

/-- What the two names of a release stand for. Files are never numbered twice. -/
structure Folder where
  part : Option Entry
  dest : Option Entry
  contents : ℕ → Bytes
  next : ℕ
  known : ∀ n, part = some (.file n) ∨ dest = some (.file n) → n < next

namespace Folder
variable (d : Folder)

/-- What a write at a position leaves; what it leaves out is zero. -/
def writeAt (old : Bytes) (pos : ℕ) (bytes : Bytes) : Bytes :=
  (old ++ List.replicate (pos - old.length) 0).take pos ++ bytes ++ old.drop (pos + bytes.length)

def setContents (node : ℕ) (bytes : Bytes) : Folder :=
  { d with contents := Function.update d.contents node bytes }

def newPart : Folder :=
  { part := some (.file d.next)
    dest := d.dest
    contents := Function.update d.contents d.next []
    next := d.next + 1
    known := by
      rintro n (own | other)
      · cases own
        exact d.next.lt_succ_self
      · exact (d.known n (.inr other)).trans d.next.lt_succ_self }

def dropPart : Folder :=
  { d with part := none, known := fun n h => d.known n (h.imp_left fun none => nomatch none) }

def movePart : Folder :=
  { d with
    part := none
    dest := d.part
    known := fun n h => d.known n (.inl (h.elim (fun none => nomatch none) id)) }

def showDest : Option (Option Bytes) :=
  d.dest.map fun
    | .file n => some (d.contents n)
    | .directory => none

end Folder

inductive Call
  | createDirAll
  | create
  | write (node pos : ℕ) (bytes : Bytes)
  | sync (node : ℕ)
  | rename
  | remove
  deriving DecidableEq

abbrev Call.Answer : Call → Type
  | create => ℕ
  | _ => Unit

/-- Two names of one file are renamed by leaving both. -/
def Folder.exec (d : Folder) : (c : Call) → Except DownloadError c.Answer × Folder
  | .createDirAll => (.ok (), d)
  | .create =>
    match d.part with
    | some (.file n) => (.ok n, d.setContents n [])
    | some .directory => (.error (.io "part" "is a directory"), d)
    | none => (.ok d.next, d.newPart)
  | .write node pos bytes => (.ok (), d.setContents node (writeAt (d.contents node) pos bytes))
  | .sync _ => (.ok (), d)
  | .rename =>
    match d.part, d.dest with
    | none, _ => (.error (.io "dest" "not found"), d)
    | some _, some .directory => (.error (.io "dest" "is a directory"), d)
    | some .directory, some (.file _) => (.error (.io "dest" "not a directory"), d)
    | some part, dest => (.ok (), if some part = dest then d else d.movePart)
  | .remove =>
    match d.part with
    | some (.file _) => (.ok (), d.dropPart)
    | _ => (.error (.io "part" "not a file"), d)

/-- What the server answers a fetch: the checksums, their signature, and the artifact's chunks with how
they end. -/
structure Server where
  sums : Except DownloadError String
  sig : Except DownloadError String
  artifact : Except DownloadError (List Bytes × Option DownloadError)

def Server.received (server : Server) : Option Bytes :=
  match server.artifact with
  | .ok (chunks, none) => some chunks.flatten
  | _ => none

structure Downloaded where
  name : String
  bytes : ℕ

abbrev Prog (α : Type) := Program Call Call.Answer DownloadError α

namespace Prog
open Program (ret fail)

def ask (call : Call) : Prog call.Answer := Program.ask call

def lift {α : Type} : Except DownloadError α → Prog α
  | .ok a => ret a
  | .error e => fail e

variable (m : Minisign) (sha : Sha256)

/-- The loop of `stream_to`, with what was hashed and written so far. -/
def streamLoop (node : ℕ) (ending : Option DownloadError) : List Bytes → Bytes → Prog (ℕ × String)
  | [], hashed =>
    match ending with
    | some e => fail e
    | none => do
      ask (.sync node)
      ret (hashed.length, digestOf sha hashed)
  | chunk :: rest, hashed => do
    ask (.write node hashed.length chunk)
    streamLoop node ending rest (hashed ++ chunk)

def streamTo (chunks : List Bytes) (ending : Option DownloadError) : Prog (ℕ × String) := do
  let node ← ask .create
  streamLoop sha node ending chunks []

/-- What is asked of the server before anything is written: the digest the file must have. -/
def listed (name : String) (server : Server) : Except DownloadError String := do
  let sums ← server.sums
  let sig ← server.sig
  (verifySums m sums.toUTF8 sig).mapError .unverified
  (digestFor sums name).elim (.error (.unverified (.notListed name))) .ok

def fetch (name : String) (server : Server) : Prog Downloaded := do
  let expected ← lift (listed m name server)
  ask .createDirAll
  let (chunks, ending) ← lift server.artifact
  match ← (streamTo sha chunks ending).attempt with
  | .error e =>
    let _ ← (ask .remove).attempt
    fail e
  | .ok (written, actual) =>
    if actual ≠ expected then
      let _ ← (ask .remove).attempt
      fail (.unverified (.digestMismatch name expected actual))
    else
      ask .rename
      ret ⟨name, written⟩

end Prog

abbrev Calls := List (Asked Call Call.Answer DownloadError)

namespace Calls
variable (own : Calls)

def wrote (acc : Option (ℕ × Bytes)) : Asked Call Call.Answer DownloadError → Option (ℕ × Bytes)
  | ⟨.create, .ok n⟩ => some (n, [])
  | ⟨.write _ _ bytes, .ok _⟩ => acc.map fun made => (made.1, made.2 ++ bytes)
  | _ => acc

def made : Option (ℕ × Bytes) := own.foldl wrote none

def Begun : Prop := ∃ a ∈ own, a.call = .create
def Settled : Prop := ∃ a ∈ own, a.call = .rename ∨ a.call = .remove
def Published : Prop := ⟨.rename, .ok ()⟩ ∈ own

def publishes : Asked Call Call.Answer DownloadError → Bool
  | ⟨.rename, .ok _⟩ => true
  | _ => false

theorem publishes_iff {a : Asked Call Call.Answer DownloadError} : publishes a = true ↔ a = ⟨.rename, .ok ()⟩ := by
  constructor
  · intro renamed
    unfold publishes at renamed
    split at renamed
    · rfl
    · cases renamed
  · rintro rfl
    rfl

instance : Decidable own.Published :=
  decidable_of_iff (own.any publishes = true) (by simp [publishes_iff, Published])

/-- Between the fetch's create and its rename or remove. -/
def Holds : Prop := own.Begun ∧ ¬ own.Settled

instance : Decidable own.Holds :=
  inferInstanceAs (Decidable ((∃ a ∈ own, a.call = .create) ∧
    ¬ ∃ a ∈ own, a.call = .rename ∨ a.call = .remove))

def Open (m : ℕ × Bytes) : Prop := own.Holds ∧ own.made = some m

variable {own} {a : Asked Call Call.Answer DownloadError}

theorem made_push : Calls.made (own ++ [a]) = wrote own.made a := List.foldl_concat ..

theorem begun_push : Calls.Begun (own ++ [a]) ↔ own.Begun ∨ a.call = .create := by
  simp [Begun, or_and_right, exists_or]

theorem settled_push : Calls.Settled (own ++ [a]) ↔ own.Settled ∨ a.call = .rename ∨ a.call = .remove := by
  simp [Settled, or_and_right, exists_or]

theorem published_push : Calls.Published (own ++ [a]) ↔ own.Published ∨ a = ⟨.rename, .ok ()⟩ := by
  simp [Published, eq_comm]

theorem Published.settled (h : own.Published) : own.Settled := ⟨_, h, .inl rfl⟩

theorem made_of_not_begun (h : ¬ own.Begun) : own.made = none := by
  induction own using List.reverseRecOn with
  | nil => rfl
  | append_singleton own a ih =>
    rw [begun_push, not_or] at h
    rw [made_push, ih h.1]
    rcases a with ⟨c, r⟩
    cases c with
    | create => exact absurd rfl h.2
    | write node pos bytes => cases r <;> rfl
    | _ => rfl

/-- A call that neither creates nor settles. -/
theorem Open.push {m m' : ℕ × Bytes} (h : own.Open m) (kept : wrote (some m) a = some m')
    (going : a.call ≠ .rename ∧ a.call ≠ .remove) : Calls.Open (own ++ [a]) m' := by
  refine ⟨⟨begun_push.mpr (.inl h.1.1), fun settled => ?_⟩, ?_⟩
  · rcases settled_push.mp settled with before | renamed | removed
    · exact h.1.2 before
    · exact going.1 renamed
    · exact going.2 removed
  · rw [made_push, h.2]
    exact kept

theorem Holds.push (h : own.Holds) (going : a.call ≠ .rename ∧ a.call ≠ .remove) :
    Calls.Holds (own ++ [a]) := by
  refine ⟨begun_push.mpr (.inl h.1), fun settled => ?_⟩
  rcases settled_push.mp settled with before | renamed | removed
  · exact h.2 before
  · exact going.1 renamed
  · exact going.2 removed

end Calls

section
variable (m : Minisign) (sha : Sha256) (name : String)

def Must (own : Calls) : Call → Prop
  | .create => ¬ own.Begun ∧ ¬ own.Settled
  | .write node pos _ => ∃ bytes, own.Open (node, bytes) ∧ pos = bytes.length
  | .rename => ∃ made, own.Open made ∧ Verified m sha name made.2
  | .remove => own.Holds
  | _ => True

abbrev Keeps {α : Type} (p : Prog α) (done : α → Calls → Prop) (failed : Calls → Prop) (own : Calls) :
    Prop :=
  p.wp (Pool.Hears fun _ _ _ => True) (Must m sha name) done (fun _ => failed) own

variable {m sha name}

theorem streamLoop_keeps (node : ℕ) (ending : Option DownloadError) (chunks : List Bytes) {hashed : Bytes}
    {own : Calls} (h : own.Open (node, hashed)) :
    Keeps m sha name (Prog.streamLoop sha node ending chunks hashed)
      (fun out own' => ∃ bytes, own'.Open (node, bytes) ∧ out.2 = digestOf sha bytes) Calls.Holds own := by
  induction chunks generalizing hashed own with
  | nil =>
    cases ending with
    | some e => exact h.1
    | none =>
      show Keeps m sha name (Prog.ask (.sync node) >>= _) _ _ _
      rw [Keeps, Program.wp_bind, Prog.ask, Program.wp_ask]
      refine ⟨trivial, ?_, ?_⟩
      · rintro _ _ ⟨-, rfl⟩
        exact ⟨hashed, h.push rfl ⟨nofun, nofun⟩, rfl⟩
      · rintro _ _ ⟨-, rfl⟩
        exact h.1.push ⟨nofun, nofun⟩
  | cons chunk rest ih =>
    show Keeps m sha name (Prog.ask (.write node hashed.length chunk) >>= _) _ _ _
    rw [Keeps, Program.wp_bind, Prog.ask, Program.wp_ask]
    refine ⟨⟨hashed, h, rfl⟩, ?_, ?_⟩
    · rintro _ _ ⟨-, rfl⟩
      exact ih (h.push rfl ⟨nofun, nofun⟩)
    · rintro _ _ ⟨-, rfl⟩
      exact h.1.push ⟨nofun, nofun⟩

theorem streamTo_keeps (chunks : List Bytes) (ending : Option DownloadError) {own : Calls}
    (fresh : ¬ own.Begun ∧ ¬ own.Settled) :
    Keeps m sha name (Prog.streamTo sha chunks ending)
      (fun out own' => ∃ made, own'.Open made ∧ out.2 = digestOf sha made.2) Calls.Holds own := by
  have begun {r : Except DownloadError ℕ} : Calls.Holds (own ++ [⟨.create, r⟩]) := by
    refine ⟨Calls.begun_push.mpr (.inr rfl), fun settled => ?_⟩
    rcases Calls.settled_push.mp settled with before | renamed | removed
    · exact fresh.2 before
    · cases renamed
    · cases removed
  show Keeps m sha name (Prog.ask .create >>= _) _ _ _
  rw [Keeps, Program.wp_bind, Prog.ask, Program.wp_ask]
  refine ⟨fresh, ?_, ?_⟩
  · rintro node _ ⟨-, rfl⟩
    refine Program.wp_mono (@streamLoop_keeps m sha name node ending chunks [] _ ⟨begun, ?_⟩) ?_ fun _ _ => id
    · rw [Calls.made_push]
      rfl
    · rintro out own' ⟨bytes, held, digest⟩
      exact ⟨_, held, digest⟩
  · rintro _ _ ⟨-, rfl⟩
    exact begun

theorem listed_ok {server : Server} {expected : String} (h : Prog.listed m name server = .ok expected) :
    ∃ sums sig, server.sums = .ok sums ∧ server.sig = .ok sig ∧ verifySums m sums.toUTF8 sig = .ok () ∧
      digestFor sums name = some expected := by
  rw [Prog.listed] at h
  cases sums : server.sums with
  | error e => rw [sums] at h; cases h
  | ok text =>
    cases sig : server.sig with
    | error e => rw [sums, sig] at h; cases h
    | ok signature =>
      rw [sums, sig] at h
      cases signed : verifySums m text.toUTF8 signature with
      | error e =>
        change ((verifySums m text.toUTF8 signature).mapError _ >>= _) = _ at h
        rw [signed] at h
        cases h
      | ok =>
        change ((verifySums m text.toUTF8 signature).mapError _ >>= _) = _ at h
        rw [signed] at h
        change (digestFor text name).elim _ Except.ok = _ at h
        cases found : digestFor text name with
        | none => rw [found] at h; cases h
        | some digest =>
          rw [found] at h
          cases h
          exact ⟨text, signature, rfl, rfl, signed, found⟩

/-- A failure is reported after the part is removed. -/
theorem remove_keeps (e : DownloadError) {done : Downloaded → Calls → Prop} {own : Calls} (h : own.Holds) :
    Keeps m sha name ((Prog.ask .remove).attempt >>= fun _ => .fail e) done
      (fun own => ¬ own.Published ∧ (own.Begun → own.Settled)) own := by
  have after {r : Except DownloadError Unit} : ¬ Calls.Published (own ++ [⟨.remove, r⟩]) ∧
      (Calls.Begun (own ++ [⟨.remove, r⟩]) → Calls.Settled (own ++ [⟨.remove, r⟩])) := by
    refine ⟨fun published => ?_, fun _ => Calls.settled_push.mpr (.inr (.inr rfl))⟩
    rcases Calls.published_push.mp published with before | now
    · exact h.2 before.settled
    · cases now
  rw [Keeps, Program.wp_bind, Program.wp_attempt, Prog.ask, Program.wp_ask]
  refine ⟨h, ?_, ?_⟩
  · rintro _ _ ⟨-, rfl⟩
    exact after
  · rintro _ _ ⟨-, rfl⟩
    exact after

/-- A fetch renames what it has verified, and otherwise removes what it has created. -/
theorem fetch_keeps (server : Server) :
    Keeps m sha name (Prog.fetch m sha name server) (fun _ own => own.Published)
      (fun own => ¬ own.Published ∧ (own.Begun → own.Settled)) [] := by
  have idle (r : Except DownloadError Unit) : ¬ Calls.Begun [⟨.createDirAll, r⟩] ∧
      ¬ Calls.Settled [⟨.createDirAll, r⟩] ∧ ¬ Calls.Published [⟨.createDirAll, r⟩] := by
    simp [Calls.Begun, Calls.Settled, Calls.Published]
  rw [Prog.fetch]
  cases checked : Prog.listed m name server with
  | error e => exact ⟨by simp [Calls.Published], by simp [Calls.Begun]⟩
  | ok expected =>
    show Keeps m sha name (Prog.ask .createDirAll >>= _) _ _ _
    rw [Keeps, Program.wp_bind, Prog.ask, Program.wp_ask]
    refine ⟨trivial, ?_, ?_⟩
    · rintro _ _ ⟨-, rfl⟩
      have idle := idle (.ok ())
      cases server.artifact with
      | error e => exact ⟨idle.2.2, fun begun => absurd begun idle.1⟩
      | ok artifact =>
        show Keeps m sha name ((Prog.streamTo sha artifact.1 artifact.2).attempt >>= _) _ _ _
        rw [Keeps, Program.wp_bind, Program.wp_attempt]
        refine Program.wp_mono (streamTo_keeps artifact.1 artifact.2 ⟨idle.1, idle.2.1⟩) ?_ ?_
        · rintro ⟨written, actual⟩ own ⟨made, held, rfl⟩
          show Keeps m sha name (if digestOf sha made.2 ≠ expected then _ else _) _ _ own
          split
          next => exact remove_keeps _ held.1
          next same =>
            obtain ⟨sums, sig, -, -, signed, found⟩ := listed_ok checked
            show Keeps m sha name (Prog.ask .rename >>= _) _ _ _
            rw [Keeps, Program.wp_bind, Prog.ask, Program.wp_ask]
            refine ⟨⟨made, held, sums, sig, signed, not_not.mp same ▸ found⟩, ?_, ?_⟩
            · rintro _ _ ⟨-, rfl⟩
              exact Calls.published_push.mpr (.inr rfl)
            · rintro _ _ ⟨-, rfl⟩
              refine ⟨fun published => ?_, fun _ => Calls.settled_push.mpr (.inr (.inl rfl))⟩
              rcases Calls.published_push.mp published with before | now
              · exact held.1.2 before.settled
              · cases now
        · intro e own held
          exact remove_keeps e held
    · rintro _ _ ⟨-, rfl⟩
      exact ⟨(idle (.error _)).2.2, fun begun => absurd begun (idle (.error _)).1⟩

end

end PeerBeam.Update
