import PeerBeam.Sync.Apply

/-! Two passes against the same list: when a file just taken from the peer is left
alone by the second. -/
namespace PeerBeam.Sync
open Std Scanner

def Pass.next (sc : Scanner) (p : Pass) (path : WirePath) : Option IndexEntry :=
  sc.rescanEntry p.device.index.entries[path]? (p.device.folder.find path)

def Device.before (sc : Scanner) (s : Device) (path : WirePath) : Option IndexEntry :=
  sc.rescanEntry s.index.entries[path]? (s.folder.find path)

section TwoPasses
variable {sc : Scanner} {peer : String} {remote : List RemoteFile} {io : PassIo} {s : Device}

theorem before_eq (path : WirePath) : (sc.rescan s.index s.folder).1.entries[path]? = s.before sc path :=
  sc.entries_rescan ..

/-- A live entry after a rescan has its file, under its own name. -/
theorem named_of_before {path : WirePath} {e : IndexEntry} (h : s.before sc path = some e)
    (live : e.deleted = false) : resolve path = path := by
  cases hf : s.folder.find path with
  | some file => exact (Folder.named_of_find hf).1
  | none =>
    unfold Device.before at h
    rw [hf] at h
    cases hi : s.index.entries[path]? with
    | none => rw [hi] at h; cases h
    | some e' =>
      rw [hi] at h
      simp only [rescanEntry] at h
      split at h <;> cases h
      · rename_i dead
        rw [live] at dead
        cases dead
      · cases live

/-- What a fetch asked for: a live remote file that is new here or ahead of ours. -/
theorem behind_of_fetch {f : RemoteFile} {entries : Entries}
    (h : decideRemote entries peer f = some (.fetch f.path)) : f.deleted = false ∧
      ∀ mine, entries[f.path]? = some mine → ¬ mine.version.Covers f.version := by
  cases he : entries[f.path]? with
  | none =>
    simp only [decideRemote, he] at h
    split at h
    · cases h
    · rename_i live
      exact ⟨Bool.eq_false_iff.mpr live, fun mine some => by cases some⟩
  | some mine =>
    simp only [decideRemote, he] at h
    cases hr : mine.version.relate f.version with
    | behind =>
      simp only [hr] at h
      refine ⟨?_, fun mine' eq => ?_⟩
      · cases hd : f.deleted with
        | false => rfl
        | true => simp only [hd, if_true] at h; split at h <;> cases h
      · cases eq
        exact (VersionVector.relate_eq_behind.mp hr).1
    | same => rw [hr] at h; cases h
    | ahead => simp only [hr] at h; split at h <;> cases h
    | diverged => rw [hr] at h; cases h

end TwoPasses

/-! A folder that is synced for the first time. -/

end PeerBeam.Sync
