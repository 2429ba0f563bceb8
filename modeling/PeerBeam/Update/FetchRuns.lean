import Mathlib.Data.Fintype.Basic
import PeerBeam.Update.Fetch

/-! Fetches of one release into one directory, call by call. What is published is what was verified as
long as no fetch creates the part while another writes it. -/
namespace PeerBeam.Update
open TransitionRun (Along)

section
variable {ι : Type} [DecidableEq ι] (m : Minisign) (sha : Sha256) (name : String)

abbrev Fetches (ι : Type) := Pool Folder ι Call Call.Answer DownloadError Downloaded

/-- A part is created where no other fetch holds one and it is not the published file, a rename is not
refused, and a part is not left behind by a remove that fails. -/
def Undisturbed (w : Fetches ι) (t : Turn ι DownloadError) : Prop :=
  match w.next t.thread with
  | some .create => (∀ j, j ≠ t.thread → ¬ Calls.Holds (w.own j)) ∧
      ∀ n, w.state.part = some (.file n) → w.state.dest ≠ some (.file n)
  | some .rename => t.failure = none ∧ w.state.dest ≠ some .directory
  | some .remove => t.failure = none ∨ Calls.made (w.own t.thread) = none
  | _ => True

instance (w : Fetches ι) (t : Turn ι DownloadError) [Fintype ι] : Decidable (Undisturbed w t) :=
  match h : w.next t.thread with
  | some .create =>
    have part : Decidable (∀ n, w.state.part = some (.file n) → w.state.dest ≠ some (.file n)) :=
      match here : w.state.part with
      | some (.file n) => decidable_of_iff (w.state.dest ≠ some (.file n)) (by simp)
      | some .directory => .isTrue (by simp)
      | none => .isTrue (by simp)
    decidable_of_iff ((∀ j, j ≠ t.thread → ¬ Calls.Holds (w.own j)) ∧
      ∀ n, w.state.part = some (.file n) → w.state.dest ≠ some (.file n)) (by rw [Undisturbed, h])
  | some .rename => decidable_of_iff (t.failure = none ∧ w.state.dest ≠ some .directory)
      (by rw [Undisturbed, h])
  | some .remove => decidable_of_iff (t.failure = none ∨ Calls.made (w.own t.thread) = none)
      (by rw [Undisturbed, h])
  | some .createDirAll | some (.write ..) | some (.sync _) | none => .isTrue (by rw [Undisturbed, h]; trivial)

structure Sound (d : Folder) (own : ι → Calls) : Prop where
  alone : ∀ i j, (own i).Holds → (own j).Holds → i = j
  writing : ∀ i n bytes, (own i).Open (n, bytes) →
    d.part = some (.file n) ∧ d.contents n = bytes ∧ d.dest ≠ some (.file n)
  gone : ∀ i n bytes, (own i).Settled → (own i).made = some (n, bytes) → d.part ≠ some (.file n)
  numbered : ∀ i n bytes, (own i).made = some (n, bytes) → n < d.next
  published : ∀ i, (own i).Published → ∃ n, d.dest = some (.file n) ∧ Verified m sha name (d.contents n)

variable {m sha name} {d : Folder} {own : ι → Calls}

omit [DecidableEq ι] in
theorem Sound.initial (d : Folder) : Sound m sha name d (fun _ : ι => []) := by
  constructor
  · intro i j held
    exact absurd held.1 (by simp [Calls.Begun])
  · intro i n bytes held
    exact absurd held.1.1 (by simp [Calls.Begun])
  · intro i n bytes settled
    exact absurd settled (by simp [Calls.Settled])
  · intro i n bytes made
    cases made
  · intro i published
    exact absurd published (by simp [Calls.Published])

omit [DecidableEq ι] in
/-- Whoever else there is does not hold the part. -/
theorem Sound.rest (h : Sound m sha name d own) {i j : ι} (held : (own i).Holds) (other : j ≠ i) :
    ¬ (own j).Holds := fun also => other (h.alone j i also held)

structure Next (own own' : ι → Calls) (i : ι) (a : Asked Call Call.Answer DownloadError) : Prop where
  here : own' i = own i ++ [a]
  other : ∀ j, j ≠ i → own' j = own j

variable {own' : ι → Calls} {i : ι} {a : Asked Call Call.Answer DownloadError} {d' : Folder}

/-- What a call must see to. -/
theorem Sound.after (h : Sound m sha name d own) (next : Next own own' i a)
    (held : (own' i).Holds → ∀ j, j ≠ i → ¬ (own j).Holds)
    (mine : ∀ n bytes, (own' i).Open (n, bytes) →
      d'.part = some (.file n) ∧ d'.contents n = bytes ∧ d'.dest ≠ some (.file n))
    (others : (∃ j, j ≠ i ∧ (own j).Holds) →
      d'.part = d.part ∧ d'.contents = d.contents ∧ d'.dest = d.dest)
    (old : ∀ n, d'.part = some (.file n) → n < d.next → d.part = some (.file n))
    (gone : ∀ n bytes, (own' i).Settled → (own' i).made = some (n, bytes) → d'.part ≠ some (.file n))
    (numbered : ∀ n bytes, (own' i).made = some (n, bytes) → n < d'.next) (grows : d.next ≤ d'.next)
    (shown : (∃ n, d.dest = some (.file n) ∧ Verified m sha name (d.contents n)) →
      ∃ n, d'.dest = some (.file n) ∧ Verified m sha name (d'.contents n))
    (published : (own' i).Published →
      ∃ n, d'.dest = some (.file n) ∧ Verified m sha name (d'.contents n)) :
    Sound m sha name d' own' := by
  constructor
  · intro j k one two
    by_cases first : j = i
    · by_cases second : k = i
      · rw [first, second]
      · rw [next.other k second] at two
        exact absurd two (held (first ▸ one) k second)
    · rw [next.other j first] at one
      by_cases second : k = i
      · exact absurd one (held (second ▸ two) j first)
      · rw [next.other k second] at two
        exact h.alone j k one two
  · intro j n bytes writing
    by_cases own : j = i
    · exact mine n bytes (own ▸ writing)
    · rw [next.other j own] at writing
      obtain ⟨part, contents, dest⟩ := others ⟨j, own, writing.1⟩
      rw [part, contents, dest]
      exact h.writing j n bytes writing
  · intro j n bytes settled made part
    by_cases own : j = i
    · exact gone n bytes (own ▸ settled) (own ▸ made) part
    · rw [next.other j own] at settled made
      exact h.gone j n bytes settled made (old n part (h.numbered j n bytes made))
  · intro j n bytes made
    by_cases own : j = i
    · exact numbered n bytes (own ▸ made)
    · rw [next.other j own] at made
      exact (h.numbered j n bytes made).trans_le grows
  · intro j did
    by_cases own : j = i
    · exact published (own ▸ did)
    · rw [next.other j own] at did
      exact shown (h.published j did)

/-- A call that is not one of the part's, or a write that fails. -/
theorem Sound.idle (h : Sound m sha name d own) (next : Next own own' i a)
    (same : (own' i).made = (own i).made) (calm : a.call ≠ .create ∧ a.call ≠ .rename ∧ a.call ≠ .remove) :
    Sound m sha name d own' := by
  have begun : (own' i).Begun → (own i).Begun := fun begun =>
    (Calls.begun_push.mp (next.here ▸ begun)).resolve_right calm.1
  have settled : (own' i).Settled ↔ (own i).Settled := by
    rw [next.here, Calls.settled_push, or_iff_left (not_or.mpr calm.2)]
  have published : (own' i).Published → (own i).Published := fun published =>
    (Calls.published_push.mp (next.here ▸ published)).resolve_right fun renamed =>
      calm.2.1 (congrArg Asked.call renamed)
  have holds : (own' i).Holds → (own i).Holds := fun held => ⟨begun held.1, mt settled.mpr held.2⟩
  refine h.after next (fun held j => h.rest (holds held)) (fun n bytes writing => ?_)
    (fun _ => ⟨rfl, rfl, rfl⟩) (fun _ part _ => part) (fun n bytes done made => ?_)
    (fun n bytes made => h.numbered i n bytes (same ▸ made)) le_rfl id fun did => h.published i (published did)
  · exact h.writing i n bytes ⟨holds writing.1, same ▸ writing.2⟩
  · exact h.gone i n bytes (settled.mp done) (same ▸ made)

section
variable (h : Sound m sha name d own)
include h

/-- A file is created, or the one that is there is emptied. -/
theorem Sound.create (next : Next own own' i a) (call : a.call = .create)
    (fresh : ¬ (own i).Begun ∧ ¬ (own i).Settled) (others : ∀ j, j ≠ i → ¬ (own j).Holds)
    (part : ∀ n bytes, (own' i).made = some (n, bytes) → d'.part = some (.file n) ∧
      d'.contents n = bytes ∧ d'.dest ≠ some (.file n) ∧ n < d'.next)
    (old : ∀ n, d'.part = some (.file n) → n < d.next → d.part = some (.file n)) (grows : d.next ≤ d'.next)
    (shown : ∀ n, d.dest = some (.file n) → d'.dest = some (.file n) ∧ d'.contents n = d.contents n) :
    Sound m sha name d' own' := by
  have unsettled : ¬ (own' i).Settled := by
    rw [next.here, Calls.settled_push, call]
    exact not_or.mpr ⟨fresh.2, by simp⟩
  refine h.after next (fun _ => others) (fun n bytes writing => ?_) ?_ old
    (fun n bytes settled => absurd settled unsettled) (fun n bytes made => (part n bytes made).2.2.2) grows ?_
    fun did => absurd did.settled unsettled
  · obtain ⟨here, contents, apart, -⟩ := part n bytes writing.2
    exact ⟨here, contents, apart⟩
  · intro ⟨j, other, held⟩
    exact absurd held (others j other)
  · intro ⟨n, dest, verified⟩
    obtain ⟨still, same⟩ := shown n dest
    exact ⟨n, still, same ▸ verified⟩

theorem Sound.createFailed (next : Next own own' i a) (fresh : ¬ (own i).Begun ∧ ¬ (own i).Settled)
    (others : ∀ j, j ≠ i → ¬ (own j).Holds) {e : DownloadError} (failed : a = ⟨.create, .error e⟩) :
    Sound m sha name d own' := by
  subst failed
  refine h.create next rfl fresh others (fun n bytes made => ?_) (fun _ part _ => part) le_rfl
    fun n dest => ⟨dest, rfl⟩
  rw [next.here, Calls.made_push, Calls.made_of_not_begun fresh.1] at made
  cases made

/-- A write at the end of what was written. -/
theorem Sound.write {n : ℕ} {bytes chunk : Bytes} {r : Except DownloadError Unit}
    (next : Next own own' i ⟨.write n bytes.length chunk, r⟩) (writing : (own i).Open (n, bytes))
    (wrote : (own' i).made = some (n, bytes ++ chunk)) :
    Sound m sha name (d.setContents n (Folder.writeAt (d.contents n) bytes.length chunk)) own' := by
  obtain ⟨part, contents, dest⟩ := h.writing i n bytes writing
  have unsettled : ¬ (own' i).Settled := by
    rw [next.here, Calls.settled_push]
    exact not_or.mpr ⟨writing.1.2, by simp⟩
  have appended : Folder.writeAt (d.contents n) bytes.length chunk = bytes ++ chunk := by
    rw [contents, Folder.writeAt, Nat.sub_self, List.replicate_zero, List.append_nil, List.take_length,
      List.drop_eq_nil_of_le (Nat.le_add_right _ _), List.append_nil]
  rw [appended]
  have others := fun j => h.rest (j := j) writing.1
  refine h.after next (fun _ => others) ?_ (fun ⟨j, other, held⟩ => absurd held (others j other))
    (fun _ part _ => part) (fun _ _ settled => absurd settled unsettled) ?_ le_rfl ?_
    fun did => absurd did.settled unsettled
  · rintro k bytes' ⟨-, made⟩
    rw [wrote] at made
    cases made
    exact ⟨part, Function.update_self .., dest⟩
  · intro k bytes' made
    rw [wrote] at made
    cases made
    exact h.numbered i n bytes writing.2
  · rintro ⟨k, there, verified⟩
    have apart : k ≠ n := fun same => dest (same ▸ there)
    have kept : (d.setContents n (bytes ++ chunk)).contents k = d.contents k :=
      Function.update_of_ne apart ..
    exact ⟨k, there, kept ▸ verified⟩

/-- What was verified is renamed. -/
theorem Sound.rename {n : ℕ} {bytes : Bytes} (next : Next own own' i ⟨.rename, .ok ()⟩)
    (writing : (own i).Open (n, bytes)) (verified : Verified m sha name bytes) :
    Sound m sha name d.movePart own' := by
  obtain ⟨part, contents, dest⟩ := h.writing i n bytes writing
  have settled : (own' i).Settled := by
    rw [next.here]
    exact Calls.settled_push.mpr (.inr (.inl rfl))
  have others := fun j => h.rest (j := j) writing.1
  have now : ∃ n, d.movePart.dest = some (.file n) ∧ Verified m sha name (d.movePart.contents n) :=
    ⟨n, part, contents ▸ verified⟩
  refine h.after next (fun held => absurd settled held.2) (fun k bytes' held => absurd settled held.1.2)
    (fun ⟨j, other, held⟩ => absurd held (others j other)) nofun nofun ?_ le_rfl (fun _ => now) fun _ => now
  intro k bytes' made
  rw [next.here, Calls.made_push, writing.2] at made
  cases made
  exact h.numbered i n bytes writing.2

/-- The part is removed, whoever's it was. -/
theorem Sound.remove {r : Except DownloadError Unit} (next : Next own own' i ⟨.remove, r⟩)
    (held : (own i).Holds) (part : d'.part = none ∨ d'.part = d.part ∧ (own i).made = none)
    (contents : d'.contents = d.contents) (dest : d'.dest = d.dest) (same : d'.next = d.next) :
    Sound m sha name d' own' := by
  have settled : (own' i).Settled := by
    rw [next.here]
    exact Calls.settled_push.mpr (.inr (.inr rfl))
  have others := fun j => h.rest (j := j) held
  have made : (own' i).made = (own i).made := by
    rw [next.here, Calls.made_push]
    cases r <;> rfl
  have published : (own' i).Published → (own i).Published := by
    rw [next.here, Calls.published_push]
    exact fun did => did.resolve_right fun same => by cases congrArg Asked.call same
  refine h.after next (fun held => absurd settled held.2) (fun k bytes' held => absurd settled held.1.2)
    (fun away => away.elim fun j held => absurd held.2 (others j held.1)) ?_ ?_ ?_ same.ge ?_ ?_
  · intro k here _
    rcases part with none | ⟨still, -⟩
    · rw [none] at here
      cases here
    · exact still ▸ here
  · intro k bytes _ wrote
    rcases part with none | ⟨-, nothing⟩
    · rw [none]
      rintro ⟨⟩
    · rw [made, nothing] at wrote
      cases wrote
  · intro k bytes wrote
    rw [same]
    exact h.numbered i k bytes (made ▸ wrote)
  · rw [dest, contents]
    exact id
  · rw [dest, contents]
    exact fun did => h.published i (published did)

end

end

section
variable {ι : Type} [DecidableEq ι] {m : Minisign} {sha : Sha256} {name : String} {w : Fetches ι}
  {t : Turn ι DownloadError}

abbrev replied (w : Fetches ι) (t : Turn ι DownloadError) (c : Call) : Except DownloadError c.Answer × Folder :=
  Pool.reply Folder.exec w.state t.failure c

theorem Sound.rename_replied (h : Sound m sha name w.state w.own) {n : ℕ} {bytes : Bytes} (writing : Calls.Open (w.own t.thread) (n, bytes))
    (ok : t.failure = none ∧ w.state.dest ≠ some .directory) :
    replied w t .rename = (.ok (), w.state.movePart) := by
  obtain ⟨part, -, apart⟩ := h.writing t.thread n bytes writing
  rw [replied, ok.1]
  show Folder.exec w.state .rename = _
  rw [Folder.exec, part]
  cases there : w.state.dest with
  | none => rfl
  | some entry =>
    cases entry with
    | directory => exact absurd there ok.2
    | file k =>
      have other : some (Entry.file n) ≠ some (.file k) := fun same => apart (there.trans same.symm)
      exact congrArg (Prod.mk _) (if_neg other)

/-- What each turn's call does to the directory keeps it sound. -/
theorem Sound.call (h : Sound m sha name w.state w.own) {c : Call} (turn : w.next t.thread = some c)
    (must : Must m sha name (w.own t.thread) c) (ok : Undisturbed w t) {own' : ι → Calls}
    (next : Next w.own own' t.thread ⟨c, (replied w t c).1⟩) :
    Sound m sha name (replied w t c).2 own' := by
  rw [Undisturbed, turn] at ok
  have made := congrArg Calls.made next.here
  rw [Calls.made_push] at made
  rcases t with ⟨i, failure⟩
  cases c with
  | createDirAll =>
    cases failure with
    | none => exact h.idle next made ⟨nofun, nofun, nofun⟩
    | some e => exact h.idle next made ⟨nofun, nofun, nofun⟩
  | sync n =>
    cases failure with
    | none => exact h.idle next made ⟨nofun, nofun, nofun⟩
    | some e => exact h.idle next made ⟨nofun, nofun, nofun⟩
  | create =>
    cases failure with
    | some e => exact h.createFailed next must ok.1 rfl
    | none =>
      cases part : w.state.part with
      | none =>
        have does : replied w ⟨i, none⟩ .create = (.ok w.state.next, w.state.newPart) := by
          show Folder.exec w.state .create = _
          rw [Folder.exec, part]
        rw [does] at next made ⊢
        refine h.create next rfl must ok.1 ?_ ?_ w.state.next.le_succ fun n dest => ⟨dest, ?_⟩
        · intro n bytes mine
          rw [made] at mine
          cases mine
          refine ⟨rfl, Function.update_self .., fun dest => ?_, w.state.next.lt_succ_self⟩
          exact absurd (w.state.known _ (.inr dest)) (Nat.lt_irrefl _)
        · intro n here older
          cases here
          exact absurd older (Nat.lt_irrefl _)
        · exact Function.update_of_ne (Nat.ne_of_lt (w.state.known n (.inr dest))) ..
      | some entry =>
        cases entry with
        | directory =>
          have does : replied w ⟨i, none⟩ .create =
              (.error (.io "part" "is a directory"), w.state) := by
            show Folder.exec w.state .create = _
            rw [Folder.exec, part]
          rw [does] at next ⊢
          exact h.createFailed next must ok.1 rfl
        | file k =>
          have does : replied w ⟨i, none⟩ .create = (.ok k, w.state.setContents k []) := by
            show Folder.exec w.state .create = _
            rw [Folder.exec, part]
          rw [does] at next made ⊢
          refine h.create next rfl must ok.1 ?_ (fun n here _ => here) le_rfl fun n dest => ⟨dest, ?_⟩
          · intro n bytes mine
            rw [made] at mine
            cases mine
            exact ⟨part, Function.update_self .., ok.2 k part, w.state.known k (.inl part)⟩
          · have apart : n ≠ k := fun same => ok.2 k part (same ▸ dest)
            exact Function.update_of_ne apart ..
  | write n pos chunk =>
    obtain ⟨bytes, writing, rfl⟩ := must
    cases failure with
    | some e => exact h.idle next made ⟨nofun, nofun, nofun⟩
    | none =>
      rw [writing.2] at made
      exact h.write next writing made
  | rename =>
    obtain ⟨⟨n, bytes⟩, writing, verified⟩ := must
    have does := h.rename_replied writing ok
    rw [does] at next ⊢
    exact h.rename next writing verified
  | remove =>
    cases failure with
    | some e => exact h.remove next must (.inr ⟨rfl, ok.resolve_left nofun⟩) rfl rfl rfl
    | none =>
      cases part : w.state.part with
      | none =>
        have does : (replied w ⟨i, none⟩ .remove).2 = w.state := by
          show (Folder.exec w.state .remove).2 = _
          rw [Folder.exec, part]
        rw [does]
        exact h.remove next must (.inl part) rfl rfl rfl
      | some entry =>
        cases entry with
        | file k =>
          have does : (replied w ⟨i, none⟩ .remove).2 = w.state.dropPart := by
            show (Folder.exec w.state .remove).2 = _
            rw [Folder.exec, part]
          rw [does]
          exact h.remove next must (.inl rfl) rfl rfl rfl
        | directory =>
          have does : (replied w ⟨i, none⟩ .remove).2 = w.state := by
            show (Folder.exec w.state .remove).2 = _
            rw [Folder.exec, part]
          rw [does]
          refine h.remove next must (.inr ⟨rfl, ?_⟩) rfl rfl rfl
          cases mine : Calls.made (w.own i) with
          | none => rfl
          | some m =>
            have writing := (h.writing i m.1 m.2 ⟨must, mine⟩).1
            cases part.symm.trans writing

end

namespace Folder
variable {d : Folder}

theorem showDest_congr {d' : Folder} (dest : d'.dest = d.dest)
    (contents : ∀ n, d.dest = some (.file n) → d'.contents n = d.contents n) : d'.showDest = d.showDest := by
  rw [showDest, showDest, dest]
  apply Option.map_congr
  intro entry there
  cases entry with
  | directory => rfl
  | file n => exact congrArg some (contents n there)

theorem showDest_setContents {n : ℕ} (bytes : Bytes) (apart : d.dest ≠ some (.file n)) :
    (d.setContents n bytes).showDest = d.showDest := by
  refine showDest_congr rfl fun k there => ?_
  have other : k ≠ n := fun same => apart (same ▸ there)
  exact Function.update_of_ne other ..

theorem showDest_newPart : d.newPart.showDest = d.showDest :=
  showDest_congr rfl fun k there => Function.update_of_ne (d.known k (.inr there)).ne ..

end Folder

section
variable {ι : Type} [DecidableEq ι] {m : Minisign} {sha : Sha256} {name : String} {w : Fetches ι}
  {t : Turn ι DownloadError}

/-- Nothing but a rename shows. -/
theorem Sound.showDest_call (h : Sound m sha name w.state w.own) {c : Call}
    (turn : w.next t.thread = some c) (must : Must m sha name (w.own t.thread) c) (ok : Undisturbed w t)
    (quiet : c ≠ .rename) : (replied w t c).2.showDest = w.state.showDest := by
  rw [Undisturbed, turn] at ok
  rcases t with ⟨i, failure⟩
  cases failure with
  | some e => rfl
  | none =>
    cases c with
    | createDirAll | sync n => rfl
    | rename => exact absurd rfl quiet
    | write n pos chunk =>
      obtain ⟨bytes, writing, -⟩ := must
      exact Folder.showDest_setContents _ (h.writing i n bytes writing).2.2
    | create =>
      show (Folder.exec w.state .create).2.showDest = _
      rw [Folder.exec]
      split
      next k part => exact Folder.showDest_setContents _ (ok.2 k part)
      next => rfl
      next => exact Folder.showDest_newPart
    | remove =>
      show (Folder.exec w.state .remove).2.showDest = _
      rw [Folder.exec]
      split
      next => rfl
      next => rfl

structure Going (m : Minisign) (sha : Sha256) (name : String) (w : Fetches ι) : Prop where
  keeps : Pool.Keeps (fun _ _ _ _ => True) (fun _ => Must m sha name) (fun _ _ own => Calls.Published own)
    (fun _ _ own => ¬ Calls.Published own ∧ (Calls.Begun own → Calls.Settled own)) w
  sound : Sound m sha name w.state w.own

theorem Going.start (d : Folder) (servers : ι → Server) :
    Going m sha name (Pool.start d fun i => Prog.fetch m sha name (servers i)) :=
  ⟨fun i => fetch_keeps (servers i), .initial d⟩

theorem Going.step (h : Going m sha name w) (ok : Undisturbed w t) :
    Going m sha name (Pool.step Folder.exec w t) := by
  refine ⟨h.keeps.step t fun _ _ => trivial, ?_⟩
  rcases Pool.step_cases Folder.exec w t with ⟨c, next, thread, after⟩ | ⟨_, after⟩
  · have turn : w.next t.thread = some c := Pool.next_eq_some.mpr ⟨next, thread⟩
    have one : Next w.own (Pool.step Folder.exec w t).own t.thread ⟨c, (replied w t c).1⟩ := by
      constructor
      · rw [after, Pool.own_push, if_pos rfl]
      · intro j other
        rw [after, Pool.own_push, if_neg (Ne.symm other), List.append_nil]
    have sound := h.sound.call turn (h.keeps.next turn) ok one
    have state : (Pool.step Folder.exec w t).state = (replied w t c).2 := congrArg Pool.state after
    rwa [state]
  · rw [after]
    exact h.sound

/-- A turn of a fetch shows, or it was its rename. -/
theorem Going.turn (h : Going m sha name w) (ok : Undisturbed w t) :
    (Pool.step Folder.exec w t).state.showDest = w.state.showDest ∨
      Calls.Published ((Pool.step Folder.exec w t).own t.thread) := by
  rcases Pool.step_cases Folder.exec w t with ⟨c, next, thread, after⟩ | ⟨_, after⟩
  · have turn : w.next t.thread = some c := Pool.next_eq_some.mpr ⟨next, thread⟩
    have must := h.keeps.next turn
    by_cases quiet : c = .rename
    · subst quiet
      obtain ⟨made, writing, -⟩ := must
      have ok' := ok
      rw [Undisturbed, turn] at ok'
      have does := h.sound.rename_replied writing ok'
      rw [after, Pool.own_push, if_pos rfl]
      have answered : (replied w t .rename).1 = .ok () := congrArg Prod.fst does
      exact .inr (Calls.published_push.mpr (.inr (congrArg (Asked.mk Call.rename) answered)))
    · rw [after]
      exact .inl (h.sound.showDest_call turn must ok quiet)
  · rw [after]
    exact .inl rfl

theorem published_run (turns : List (Turn ι DownloadError)) {i : ι} (h : Calls.Published (w.own i)) :
    Calls.Published ((w.run Folder.exec turns).own i) := by
  refine TransitionRun.invariant (I := fun w : Fetches ι => Calls.Published (w.own i)) h (fun w t h => ?_) turns
  rcases Pool.own_step Folder.exec w t i with same | ⟨-, c, -, more, -⟩
  · exact same ▸ h
  · rw [more]
    exact Calls.published_push.mpr (.inl h)

end

section
variable {m : Minisign} {sha : Sha256} {name : String}

theorem streamLoop_run (node : ℕ) (ending : Option DownloadError) (chunks : List Bytes) (hashed : Bytes)
    (d : Folder) : ∃ d', d'.part = d.part ∧ d'.dest = d.dest ∧
      (Prog.streamLoop sha node ending chunks hashed).run Folder.exec d =
        (ending.elim (.ok ((hashed ++ chunks.flatten).length, digestOf sha (hashed ++ chunks.flatten)))
          .error, d') := by
  induction chunks generalizing hashed d with
  | nil =>
    refine ⟨d, rfl, rfl, ?_⟩
    rw [List.flatten_nil, List.append_nil]
    cases ending <;> rfl
  | cons chunk rest ih =>
    obtain ⟨d', part, dest, run⟩ := ih (hashed ++ chunk)
      (d.setContents node (Folder.writeAt (d.contents node) hashed.length chunk))
    rw [List.append_assoc] at run
    exact ⟨d', part, dest, run⟩

theorem streamTo_run (chunks : List Bytes) (ending : Option DownloadError) {d : Folder}
    (part : d.part ≠ some .directory) : ∃ d', (∃ n, d'.part = some (.file n)) ∧ d'.dest = d.dest ∧
      (Prog.streamTo sha chunks ending).run Folder.exec d =
        (ending.elim (.ok (chunks.flatten.length, digestOf sha chunks.flatten)) .error, d') := by
  cases here : d.part with
  | none =>
    have created : Folder.exec d .create = (.ok d.next, d.newPart) := by rw [Folder.exec, here]
    obtain ⟨d', part', dest, run⟩ := @streamLoop_run sha d.next ending chunks [] d.newPart
    refine ⟨d', ⟨_, part'⟩, dest, ?_⟩
    rw [Prog.streamTo, Program.run_bind, Prog.ask, Program.run_ask, created]
    exact run
  | some entry =>
    cases entry with
    | directory => exact absurd here part
    | file k =>
      have created : Folder.exec d .create = (.ok k, d.setContents k []) := by rw [Folder.exec, here]
      obtain ⟨d', part', dest, run⟩ := @streamLoop_run sha k ending chunks [] (d.setContents k [])
      refine ⟨d', ⟨k, part'.trans here⟩, dest, ?_⟩
      rw [Prog.streamTo, Program.run_bind, Prog.ask, Program.run_ask, created]
      exact run

theorem listed_eq {server : Server} {sums sig expected : String} (one : server.sums = .ok sums)
    (two : server.sig = .ok sig) (signed : verifySums m sums.toUTF8 sig = .ok ())
    (found : digestFor sums name = some expected) : Prog.listed m name server = .ok expected := by
  rw [Prog.listed, one, two]
  show ((verifySums m sums.toUTF8 sig).mapError _ >>= _) = _
  rw [signed]
  show (digestFor sums name).elim _ Except.ok = _
  rw [found]
  rfl

/-- What is left of a fetch once its artifact has come to an end. -/
theorem fetch_run_ended {server : Server} {chunks : List Bytes} {ending : Option DownloadError} {d : Folder}
    {expected : String} (part : d.part ≠ some .directory) (dest : d.dest ≠ some .directory)
    (checked : Prog.listed m name server = .ok expected) (artifact : server.artifact = .ok (chunks, ending)) :
    (∃ out, ((Prog.fetch m sha name server).run Folder.exec d).1 = .ok out) ↔
      ending = none ∧ digestOf sha chunks.flatten = expected := by
  obtain ⟨d', ⟨n, mine⟩, there, run⟩ := @streamTo_run sha chunks ending _ part
  have refused (e : DownloadError) : ¬ ∃ out, (((Prog.ask .remove).attempt >>= fun _ => .fail e :
      Prog Downloaded).run Folder.exec d').1 = .ok out := by
    rw [Program.run_bind, Program.run_attempt]
    rintro ⟨out, ok⟩
    cases ok
  rw [Prog.fetch, checked, artifact]
  -- the checked list and the parent directory are behind us, and the artifact has begun to arrive
  show (∃ out, (Program.run Folder.exec ((Prog.streamTo sha chunks ending).attempt >>= _) d).1 = .ok out) ↔ _
  rw [Program.run_bind, Program.run_attempt, run]
  cases ending with
  | some e => exact iff_of_false (refused e) fun h => by cases h.1
  | none =>
    by_cases same : digestOf sha chunks.flatten = expected
    · refine iff_of_true ⟨⟨name, chunks.flatten.length⟩, ?_⟩ ⟨rfl, same⟩
      show (Program.run Folder.exec (if digestOf sha chunks.flatten ≠ expected then _ else _) d').1 = _
      rw [if_neg (not_not.mpr same), Program.run_bind, Prog.ask, Program.run_ask]
      have moved : (Folder.exec d' .rename).1 = .ok () := by
        rw [Folder.exec, mine]
        cases here : d'.dest with
        | none => rfl
        | some entry =>
          cases entry with
          | directory => exact absurd (there.symm.trans here) dest
          | file k => rfl
      rcases left : Folder.exec d' .rename with ⟨r, d''⟩
      rw [left] at moved
      cases moved
      rfl
    · refine iff_of_false ?_ fun h => same h.2
      show ¬ ∃ out, (Program.run Folder.exec (if digestOf sha chunks.flatten ≠ expected then _ else _) d').1 =
        .ok out
      rw [if_pos same]
      exact refused _

/-- A fetch on its own succeeds exactly where what arrives is verified. -/
theorem fetch_run_ok_iff (server : Server) {d : Folder} (part : d.part ≠ some .directory)
    (dest : d.dest ≠ some .directory) :
    (∃ out, ((Prog.fetch m sha name server).run Folder.exec d).1 = .ok out) ↔
      ∃ sums sig bytes, server.sums = .ok sums ∧ server.sig = .ok sig ∧ server.received = some bytes ∧
        verifyArtifact m sha sums.toUTF8 sig name bytes = .ok () := by
  constructor
  · intro ok
    cases checked : Prog.listed m name server with
    | error e =>
      rw [Prog.fetch, checked] at ok
      obtain ⟨out, ok⟩ := ok
      cases ok
    | ok expected =>
      obtain ⟨sums, sig, one, two, signed, found⟩ := listed_ok checked
      cases artifact : server.artifact with
      | error e =>
        rw [Prog.fetch, checked, artifact] at ok
        obtain ⟨out, ok⟩ := ok
        cases ok
      | ok arrived =>
        obtain ⟨chunks, ending⟩ := arrived
        obtain ⟨rfl, rfl⟩ := (fetch_run_ended part dest checked artifact).mp ok
        refine ⟨sums, sig, chunks.flatten, one, two, ?_, verifyArtifact_ok_iff.mpr ⟨signed, found⟩⟩
        rw [Server.received, artifact]
  · rintro ⟨sums, sig, bytes, one, two, received, verified⟩
    obtain ⟨signed, found⟩ := verifyArtifact_ok_iff.mp verified
    cases artifact : server.artifact with
    | error e =>
      rw [Server.received, artifact] at received
      cases received
    | ok arrived =>
      obtain ⟨chunks, ending⟩ := arrived
      rw [Server.received, artifact] at received
      cases ending with
      | some e => cases received
      | none =>
        cases received
        exact (fetch_run_ended part dest (listed_eq one two signed found) artifact).mpr ⟨rfl, rfl⟩

/-- Where no part is created while another fetch holds it, and none is refused its rename or its remove:
what is published is verified; what fails leaves the release as it was and no part; and a fetch on its
own succeeds exactly where what it receives is verified. -/
theorem fetches_publish_verified {ι : Type} [DecidableEq ι] (m : Minisign) (sha : Sha256) (name : String)
    (servers : ι → Server) (d : Folder) (turns : List (Turn ι DownloadError))
    (h : Along (Pool.step Folder.exec) Undisturbed (Pool.start d fun i => Prog.fetch m sha name (servers i))
      turns) :
    let start := Pool.start d fun i => Prog.fetch m sha name (servers i)
    let w := start.run Folder.exec turns
    (∀ i, Calls.Published (w.own i) →
      ∃ n, w.state.dest = some (.file n) ∧ Verified m sha name (w.state.contents n)) ∧
    (∀ i e, w.threads i = .fail e →
      (∀ pre t post, turns = pre ++ t :: post → t.thread = i →
        (start.run Folder.exec (pre ++ [t])).state.showDest = (start.run Folder.exec pre).state.showDest) ∧
      ∀ n bytes, Calls.made (w.own i) = some (n, bytes) → w.state.part ≠ some (.file n)) ∧
    ((d.part ≠ some .directory ∧ d.dest ≠ some .directory) → ∀ server,
      ((∃ out, ((Prog.fetch m sha name server).run Folder.exec d).1 = .ok out) ↔
        ∃ sums sig bytes, server.sums = .ok sums ∧ server.sig = .ok sig ∧ server.received = some bytes ∧
          verifyArtifact m sha sums.toUTF8 sig name bytes = .ok ())) := by
  intro start w
  have going : Going m sha name w := h.invariant (.start d servers) fun _ _ => Going.step
  refine ⟨going.sound.published, fun i e failed => ?_, fun plain server =>
    fetch_run_ok_iff server plain.1 plain.2⟩
  have said := going.keeps i
  rw [failed] at said
  obtain ⟨unpublished, settled⟩ := said
  constructor
  · rintro pre t post rfl rfl
    obtain ⟨before, here, -⟩ := TransitionRun.along_append.mp h
    have mid : Going m sha name (start.run Folder.exec pre) :=
      before.invariant (.start d servers) fun _ _ => Going.step
    have split : w = ((start.run Folder.exec pre).step Folder.exec t).run Folder.exec post :=
      List.foldl_append
    rw [Pool.run, List.foldl_append]
    rcases mid.turn here with same | renamed
    · exact same
    · exact absurd (split ▸ published_run post renamed) unpublished
  · intro n bytes made
    refine going.sound.gone i n bytes (settled ?_) made
    by_contra none
    rw [Calls.made_of_not_begun none] at made
    cases made

end

def oneList (sums : String) : Minisign where
  PublicKey := Unit
  Signature := Unit
  fromBase64 _ := .ok ()
  decode _ := .ok ()
  verify _ bytes _ _ := if String.fromUTF8? bytes = some sums then .ok () else .error "another list"

def spelled : Sha256 := fun bytes =>
  Vector.ofFn fun i => if i.val = 0 then UInt8.ofNat bytes.length else bytes.getD (i - 1) 0

def sumsOf (bytes : Bytes) : String := String.ofList (hex (spelled bytes)) ++ "  app"

def release : Server := ⟨.ok (sumsOf [7]), .ok "", .ok ([[7]], none)⟩

def emptyFolder : Folder := ⟨none, none, fun _ => [], 0, nofun⟩

theorem oneList_signs {sums : String} {bytes : ByteArray} {sig : String}
    (h : verifySums (oneList sums) bytes sig = .ok ()) : String.fromUTF8? bytes = some sums := by
  have key : String.ofList (trim signingPublicKey.toList) ≠ "" := by decide +kernel
  rw [verifySums, verifySumsWith, if_neg key] at h
  by_contra other
  change (if String.fromUTF8? bytes = some sums then Except.ok () else .error "another list").mapError
    VerifyError.badSignature = _ at h
  rw [if_neg other] at h
  cases h

/-- One fetch finds the directory made, and waits for the other to end. -/
def inTurn : List (Turn Bool DownloadError) :=
  [false, true, false, false, false, false, true, true, true, true].map (⟨·, none⟩)

theorem release_fetched :
    let start := Pool.start emptyFolder fun _ : Bool => Prog.fetch (oneList (sumsOf [7])) spelled "app" release
    let w := start.run Folder.exec inTurn
    (∀ i, Calls.Published (w.own i) → ∃ n, w.state.dest = some (.file n) ∧
      Verified (oneList (sumsOf [7])) spelled "app" (w.state.contents n)) ∧
    (∀ i e, w.threads i = .fail e →
      (∀ pre t post, inTurn = pre ++ t :: post → t.thread = i →
        (start.run Folder.exec (pre ++ [t])).state.showDest = (start.run Folder.exec pre).state.showDest) ∧
      ∀ n bytes, Calls.made (w.own i) = some (n, bytes) → w.state.part ≠ some (.file n)) ∧
    ((emptyFolder.part ≠ some .directory ∧ emptyFolder.dest ≠ some .directory) → ∀ server,
      ((∃ out, ((Prog.fetch (oneList (sumsOf [7])) spelled "app" server).run Folder.exec emptyFolder).1 =
          .ok out) ↔
        ∃ sums sig bytes, server.sums = .ok sums ∧ server.sig = .ok sig ∧ server.received = some bytes ∧
          verifyArtifact (oneList (sumsOf [7])) spelled sums.toUTF8 sig "app" bytes = .ok ())) :=
  fetches_publish_verified _ _ _ (fun _ => release) emptyFolder inTurn
    (by decide +kernel)

/-- The one fetch has written and checked its part when the other empties it, and renames it. -/
theorem emptied_part_published :
    let w := (Pool.start emptyFolder fun _ : Bool =>
        Prog.fetch (oneList (sumsOf [7])) spelled "app" release).run Folder.exec
      ([false, false, false, false, true, true, false].map (⟨·, none⟩))
    Calls.Published (w.own false) ∧ ¬ ∃ n, w.state.dest = some (.file n) ∧
      Verified (oneList (sumsOf [7])) spelled "app" (w.state.contents n) := by
  intro w
  have renamed : Calls.Published (w.own false) := by decide +kernel
  have empty : w.state.showDest = some (some []) := by decide +kernel
  refine ⟨renamed, ?_⟩
  rintro ⟨n, dest, sums, sig, signed, found⟩
  have contents : w.state.contents n = [] := by
    rw [Folder.showDest, dest] at empty
    exact Option.some.inj (Option.some.inj empty)
  have same := (fromUTF8?_toUTF8 sums).symm.trans (oneList_signs signed)
  rw [contents, Option.some.inj same] at found
  exact absurd found (by decide +kernel)

end PeerBeam.Update
