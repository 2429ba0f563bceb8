import PeerBeam.Trust.Store

/-! What is left of an operation whose write fails: in the file, and in what the instance answers from then on. -/
namespace PeerBeam.Trust

/-- The steps of `persist` that can fail. -/
inductive Fault where
  | reread
  | createDir
  | writeTemp
  | rename
  deriving DecidableEq

/-- `persist`, step by step. The temp is a file of its own until the rename. -/
def persistUntil (fault : Option Fault) (file cache : Records) (exclude : DeviceId) : Stored × Except Fault Unit :=
  if fault = some .reread then (⟨file, cache⟩, .error .reread)
  else
    let merged := mergeFromDisk file cache exclude
    if fault = some .createDir then (⟨file, merged⟩, .error .createDir)
    else if fault = some .writeTemp then (⟨file, merged⟩, .error .writeTemp)
    else if fault = some .rename then (⟨file, merged⟩, .error .rename)
    else (⟨merged, merged⟩, .ok ())

/-- How the file system answers an operation whose write meets the fault. -/
def Io.of (refreshReads : Bool) (fault : Option Fault) : Io :=
  ⟨refreshReads, decide (fault ≠ some .reread), decide (fault = none)⟩

theorem persist_eq (refreshReads : Bool) (fault : Option Fault) (file cache : Records) (exclude : DeviceId) :
    persist (.of refreshReads fault) file cache exclude =
      ((persistUntil fault file cache exclude).1, (persistUntil fault file cache exclude).2.isOk) := by
  cases fault with
  | none => rfl
  | some fault => cases fault <;> rfl

/-- Whether a device's files are accepted without asking. -/
def autoAcceptsAt (l : Lookup) (now : Int) : Bool :=
  match l with
  | some (some r) => r.autoAccept && r.isApprovedAt now
  | _ => false

/-- Two cached records of a device that no question tells apart, at any time. -/
def SameAnswers (a b : Option TrustRecord) : Prop :=
  ∀ now, isApproved (some a) now = isApproved (some b) now ∧
    autoAcceptsAt (some a) now = autoAcceptsAt (some b) now ∧
    ∀ p, may (some a) now p = may (some b) now p

/-- What the questions read of a record that is approved. -/
@[ext]
structure Standing where
  expiresAt : Option Int
  autoAccept : Bool
  granted : Permission → Bool

def standing (r : Option TrustRecord) : Option Standing :=
  match r with
  | some r => if r.approved then some ⟨r.expiresAt, r.autoAccept, r.permissions.grants⟩ else none
  | none => none

def Standing.live (s : Standing) (now : Int) : Bool := !s.expiresAt.any fun deadline => deadline ≤ now

theorem isApproved_eq (r : Option TrustRecord) (now : Int) :
    isApproved (some r) now = (standing r).any (·.live now) := by
  cases r with
  | none => rfl
  | some r =>
    cases approved : r.approved <;>
      simp [isApproved, standing, TrustRecord.isApprovedAt, TrustRecord.hasExpired, Standing.live, approved]

theorem autoAcceptsAt_eq (r : Option TrustRecord) (now : Int) :
    autoAcceptsAt (some r) now = (standing r).any fun s => s.autoAccept && s.live now := by
  cases r with
  | none => rfl
  | some r =>
    cases approved : r.approved <;>
      simp [autoAcceptsAt, standing, TrustRecord.isApprovedAt, TrustRecord.hasExpired, Standing.live, approved]

theorem may_eq (r : Option TrustRecord) (now : Int) (p : Permission) :
    may (some r) now p = (standing r).any fun s => s.live now && s.granted p := by
  cases r with
  | none => rfl
  | some r =>
    cases approved : r.approved with
    | false => simp [may, standing, TrustRecord.effectivePermissionsAt, TrustRecord.isApprovedAt, approved]
    | true =>
      rw [may, TrustRecord.effectivePermissionsAt, TrustRecord.isApprovedAt, standing, approved, if_pos rfl,
        Option.any_some, Bool.true_and, Standing.live, TrustRecord.hasExpired]
      cases r.expiresAt.any fun deadline => decide (deadline ≤ now) <;> simp

theorem live_before (s : Standing) : ∃ now, s.live now = true := by
  obtain ⟨deadline, _, _⟩ := s
  cases deadline with
  | none => exact ⟨0, rfl⟩
  | some deadline => exact ⟨deadline - 1, by simp [Standing.live]⟩

theorem expiresAt_of_live {s t : Standing} (same : ∀ now, s.live now = t.live now) : s.expiresAt = t.expiresAt := by
  simp only [Standing.live, Bool.not_inj_iff] at same
  cases ends : s.expiresAt with
  | none =>
    cases ends' : t.expiresAt with
    | none => rfl
    | some d =>
      have := same d
      simp [ends, ends'] at this
  | some d =>
    cases ends' : t.expiresAt with
    | none =>
      have := same d
      simp [ends, ends'] at this
    | some d' =>
      have first := same d
      have second := same d'
      simp only [ends, ends', Option.any_some, le_refl, decide_true] at first second
      have le : d' ≤ d := of_decide_eq_true first.symm
      have ge : d ≤ d' := of_decide_eq_true second
      exact congrArg some (le_antisymm ge le)

/-- The answers of all times tell what is read of a record. -/
theorem sameAnswers_iff {a b : Option TrustRecord} : SameAnswers a b ↔ standing a = standing b := by
  simp only [SameAnswers, isApproved_eq, autoAcceptsAt_eq, may_eq]
  generalize standing a = s
  generalize standing b = t
  constructor
  · intro same
    cases s with
    | none =>
      cases t with
      | none => rfl
      | some t =>
        obtain ⟨now, live⟩ := live_before t
        have := (same now).1
        simp [live] at this
    | some s =>
      obtain ⟨now, live⟩ := live_before s
      cases t with
      | none =>
        have := (same now).1
        simp [live] at this
      | some t =>
        have lives (now : Int) : s.live now = t.live now := (same now).1
        obtain ⟨-, accepts, grants⟩ := same now
        simp only [Option.any_some, live, ← lives now, Bool.and_true, Bool.true_and] at accepts grants
        exact congrArg some (Standing.ext (expiresAt_of_live lives) accepts (funext grants))
  · rintro rfl now
    exact ⟨rfl, rfl, fun _ => rfl⟩

/-- The operation comes to write something. -/
def Op.Pending (io : Io) (s : Stored) : Op → Prop
  | .open => False
  | .record _ => True
  | .remove d => (s.cache d).isSome = true
  | op => ∃ c, op.copy io s = some c ∧ op.change c ≠ c

/-- The record an operation leaves in the cache for its device before it writes. -/
def Op.left (io : Io) (s : Stored) : Op → Option TrustRecord
  | .record r => some r
  | .remove _ => none
  | op => (op.copy io s).map op.change

namespace Stored
variable {io : Io} {s : Stored}

theorem update_of_idle {file cache : Records} {d : DeviceId} {change : TrustRecord → TrustRecord} (unchanged : Bool)
    (idle : ¬ ∃ c, cache d = some c ∧ change c ≠ c) :
    (update io file cache d change unchanged).2 ≠ none := by
  rw [update]
  cases cached : cache d with
  | none => simp
  | some c =>
    have same : change c = c := by
      by_contra other
      exact idle ⟨c, cached, other⟩
    simp [same]

/-- Nothing is written, and nothing changed, by an operation that fails without trying to write. -/
theorem perform_of_idle {op : Op} (idle : ¬ op.Pending io s) (failed : (s.perform io op).2 = none) :
    (s.perform io op).1 = s := by
  cases op with
  | «open» => rfl
  | record r => exact absurd trivial idle
  | remove d =>
    have unknown : ¬ (s.cache d).isSome = true := idle
    rw [perform, remove, if_neg unknown]
  | approveWith d pin expiresAt grant =>
    cases pin with
    | false => rfl
    | true => exact absurd failed (update_of_idle true idle)
  | setPermission d p granted => exact absurd failed (update_of_idle false idle)
  | setMine d mine => exact absurd failed (update_of_idle false idle)
  | setAutoAccept d autoAccept => exact absurd failed (update_of_idle false idle)

theorem update_of_pending {file cache : Records} {d : DeviceId} {change : TrustRecord → TrustRecord} {unchanged : Bool}
    {c : TrustRecord} (cached : cache d = some c) (changes : change c ≠ c) :
    update io file cache d change unchanged =
      answered (persist io file (Function.update cache d ((cache d).map change)) d) := by
  rw [update, cached]
  exact if_neg changes

/-- An operation that comes to write does so from the cache with its own record changed. -/
theorem perform_of_pending {op : Op} (pending : op.Pending io s) :
    ∃ d cache, op.target = some d ∧ cache d = op.left io s ∧ (∀ d', d' ≠ d → cache d' = s.cache d') ∧
      s.perform io op = answered (persist io s.file cache d) := by
  have changing (op : Op) (d : DeviceId) (cache : Records) (unchanged : Bool) (target : op.target = some d)
      (left : op.left io s = (op.copy io s).map op.change) (copy : cache d = op.copy io s)
      (same : ∀ d', d' ≠ d → cache d' = s.cache d')
      (performed : s.perform io op = update io s.file cache d op.change unchanged)
      (pending : ∃ c, op.copy io s = some c ∧ op.change c ≠ c) :
      ∃ d cache, op.target = some d ∧ cache d = op.left io s ∧ (∀ d', d' ≠ d → cache d' = s.cache d') ∧
        s.perform io op = answered (persist io s.file cache d) := by
    obtain ⟨c, start, changes⟩ := pending
    refine ⟨d, Function.update cache d ((cache d).map op.change), target, ?_, fun d' other => ?_, ?_⟩
    · rw [Function.update_self, left, copy]
    · rw [Function.update_of_ne other, same d' other]
    · rw [performed, update_of_pending (copy.trans start) changes]
  cases op with
  | «open» => exact pending.elim
  | record r =>
    exact ⟨r.device, _, rfl, Function.update_self .., fun d' other => Function.update_of_ne other .., rfl⟩
  | remove d =>
    refine ⟨d, _, rfl, Function.update_self .., fun d' other => Function.update_of_ne other .., ?_⟩
    rw [perform, remove]
    exact if_pos pending
  | approveWith d pin expiresAt grant =>
    cases pin with
    | false =>
      obtain ⟨c, start, -⟩ := pending
      cases start
    | true => exact changing (.approveWith d true expiresAt grant) d s.cache true rfl rfl rfl (fun _ _ => rfl) rfl pending
  | setPermission d p granted =>
    exact changing (.setPermission d p granted) d _ false rfl rfl rfl (fun _ other => refreshOne_of_ne other) rfl pending
  | setMine d mine =>
    exact changing (.setMine d mine) d _ false rfl rfl rfl (fun _ other => refreshOne_of_ne other) rfl pending
  | setAutoAccept d autoAccept =>
    exact changing (.setAutoAccept d autoAccept) d _ false rfl rfl rfl (fun _ other => refreshOne_of_ne other) rfl pending

theorem persist_failed (refreshReads : Bool) (fault : Fault) (file cache : Records) (d : DeviceId) :
    (persist (.of refreshReads (some fault)) file cache d).2 = false ∧
    (persist (.of refreshReads (some fault)) file cache d).1.file = file ∧
    (persist (.of refreshReads (some fault)) file cache d).1.cache =
      if fault = .reread then cache else mergeFromDisk file cache d := by
  cases fault <;> exact ⟨rfl, rfl, rfl⟩

end Stored

/-- Taking the file's copy of a device into the cache changes no answer: it is no narrower than the cached one, and
nothing where there is none. -/
def NothingNew (cached disk : Option TrustRecord) : Prop :=
  match cached, disk with
  | _, none => True
  | none, some f => f.approved = false
  | some c, some f => c.approved = true → f.approved = true ∧ (c.autoAccept = true → f.autoAccept = true) ∧
      (∀ p, c.permissions.grants p = true → f.permissions.grants p = true) ∧
      earlier c.expiresAt f.expiresAt = c.expiresAt

theorem standing_mergeEntry {cached disk : Option TrustRecord} :
    standing (mergeEntry cached disk) = standing cached ↔ NothingNew cached disk := by
  cases disk with
  | none => cases cached <;> exact iff_of_true rfl trivial
  | some f =>
    cases cached with
    | none =>
      cases approved : f.approved <;> simp [mergeEntry, standing, NothingNew, approved]
    | some c =>
      cases approved : c.approved with
      | false => simp [mergeEntry, mergeRecord, standing, NothingNew, approved]
      | true =>
        cases kept : f.approved with
        | false => simp [mergeEntry, mergeRecord, standing, NothingNew, approved, kept]
        | true =>
          simp only [mergeEntry, mergeRecord, standing, NothingNew, approved, kept, Bool.and_true, if_true,
            Option.some.injEq, Standing.mk.injEq, true_and, forall_const]
          have accepts : (c.autoAccept && f.autoAccept) = c.autoAccept ↔ (c.autoAccept = true → f.autoAccept = true) := by
            cases c.autoAccept <;> cases f.autoAccept <;> decide
          have grants : (c.permissions.intersect f.permissions).grants = c.permissions.grants ↔
              ∀ p, c.permissions.grants p = true → f.permissions.grants p = true := by
            rw [funext_iff]
            refine forall_congr' fun p => ?_
            rw [PermissionSet.grants_intersect]
            cases c.permissions.grants p <;> cases f.permissions.grants p <;> decide
          rw [accepts, grants]
          tauto

/-- What an operation puts into the cache for its own device answers as the cached record did. -/
def Op.Unseen (io : Io) (s : Stored) : Op → Prop
  | .open => True
  | .record r => standing (some r) = standing (s.cache r.device)
  | .remove d => standing (s.cache d) = none
  | .approveWith .. => False
  | .setPermission d p granted =>
    standing ((refreshOne io s.file s.cache d d).map fun c => { c with permissions := c.permissions.set p granted }) =
      standing (s.cache d)
  | .setMine d _ => standing (refreshOne io s.file s.cache d d) = standing (s.cache d)
  | .setAutoAccept d autoAccept =>
    standing ((refreshOne io s.file s.cache d d).map fun c => { c with autoAccept := autoAccept }) =
      standing (s.cache d)

/-- An approval that changes a record shows. -/
theorem standing_approved {expiresAt : Option Int} {grant : PermissionSet} {c : TrustRecord}
    (changes : Stored.approved expiresAt grant c ≠ c) :
    standing (some (Stored.approved expiresAt grant c)) ≠ standing (some c) := by
  intro same
  cases before : c.approved with
  | false => simp [standing, Stored.approved, before] at same
  | true =>
    simp only [standing, Stored.approved, before, if_true, Option.some.injEq, Standing.mk.injEq] at same
    apply changes
    cases c
    simp_all [Stored.approved]

theorem unseen_iff {io : Io} {s : Stored} {op : Op} {d : DeviceId} (pending : op.Pending io s)
    (target : op.target = some d) : standing (op.left io s) = standing (s.cache d) ↔ op.Unseen io s := by
  cases op with
  | «open» => cases target
  | record r =>
    obtain rfl : r.device = d := Option.some.inj target
    rfl
  | remove d' =>
    obtain rfl : d' = d := Option.some.inj target
    exact eq_comm
  | approveWith d' pin expiresAt grant =>
    obtain rfl : d' = d := Option.some.inj target
    obtain ⟨c, start, changes⟩ := pending
    cases pin with
    | false => cases start
    | true =>
      have start : s.cache d' = some c := start
      refine iff_of_false ?_ id
      rw [start]
      have left : (Op.approveWith d' true expiresAt grant).left io s = some (Stored.approved expiresAt grant c) :=
        congrArg (Option.map (Stored.approved expiresAt grant)) start
      rw [left]
      exact standing_approved changes
  | setPermission d' p granted =>
    obtain rfl : d' = d := Option.some.inj target
    rfl
  | setMine d' mine =>
    obtain rfl : d' = d := Option.some.inj target
    obtain ⟨c, start, -⟩ := pending
    have start : refreshOne io s.file s.cache d' d' = some c := start
    have left : (Op.setMine d' mine).left io s = some { c with mine := mine } :=
      congrArg (Option.map (Op.setMine d' mine).change) start
    rw [left, Op.Unseen, start]
    rfl
  | setAutoAccept d' autoAccept =>
    obtain rfl : d' = d := Option.some.inj target
    rfl

/-- A failed operation leaves the file alone. For the answers of the instance to stay too, it must not have come to
write; or what it was to write, and what it had merged from the file before it failed, must be such that no answer
depends on it. -/
theorem failed_write_unseen_iff (refreshReads : Bool) (fault : Option Fault) (s : Stored) (op : Op) :
    ((s.perform (.of refreshReads fault) op).2 = none →
      (s.perform (.of refreshReads fault) op).1.file = s.file ∧
        ∀ d, SameAnswers ((s.perform (.of refreshReads fault) op).1.cache d) (s.cache d)) ↔
    (fault ≠ none → op.Pending (.of refreshReads fault) s →
      op.Unseen (.of refreshReads fault) s ∧
        (fault ≠ some .reread → ∀ d, op.target ≠ some d → NothingNew (s.cache d) (s.file d))) := by
  by_cases pending : op.Pending (.of refreshReads fault) s
  · obtain ⟨d, cache, target, own, others, performed⟩ := Stored.perform_of_pending pending
    cases fault with
    | none =>
      refine iff_of_true (fun failed => ?_) (fun faulty => absurd rfl faulty)
      rw [performed] at failed
      cases failed
    | some f =>
      obtain ⟨failed, file, left⟩ := Stored.persist_failed refreshReads f s.file cache d
      have answer : (s.perform (.of refreshReads (some f)) op).2 = none := by
        rw [performed, Stored.answered, failed]
        rfl
      have unchanged : (s.perform (.of refreshReads (some f)) op).1.file = s.file := by
        rw [performed]
        exact file
      have kept (d' : DeviceId) : (s.perform (.of refreshReads (some f)) op).1.cache d' =
          if d' = d then op.left (.of refreshReads (some f)) s
          else if f = .reread then s.cache d' else mergeEntry (s.cache d') (s.file d') := by
        rw [performed]
        show (persist _ _ _ _).1.cache d' = _
        rw [left]
        by_cases same : d' = d
        · subst same
          rw [if_pos rfl, ← own]
          split
          · rfl
          · exact if_pos rfl
        · rw [if_neg same]
          split
          · exact others d' same
          · rw [mergeFromDisk, if_neg same, others d' same]
      simp only [answer, unchanged, sameAnswers_iff, forall_const, true_and, ne_eq, reduceCtorEq, not_false_eq_true,
        pending, Option.some.injEq]
      rw [← unseen_iff pending target]
      constructor
      · intro same
        refine ⟨?_, fun reads d' other => ?_⟩
        · have own := same d
          rwa [kept, if_pos rfl] at own
        · have apart : d' ≠ d := fun eq => other (eq ▸ target)
          have answers := same d'
          rwa [kept, if_neg apart, if_neg reads, standing_mergeEntry] at answers
      · rintro ⟨ownSame, quiet⟩ d'
        rw [kept]
        by_cases same : d' = d
        · rw [if_pos same, ownSame, same]
        · rw [if_neg same]
          split
          · rfl
          · next reads =>
            have other : op.target ≠ some d' := fun eq => same (Option.some.inj (eq.symm.trans target))
            exact standing_mergeEntry.mpr (quiet reads d' other)
  · refine iff_of_true (fun failed => ?_) (fun _ come => absurd come pending)
    rw [Stored.perform_of_idle pending failed]
    exact ⟨rfl, fun d now => ⟨rfl, rfl, fun _ => rfl⟩⟩

private def pinned : TrustRecord := ⟨"pb-a", "fp", "Peer", 0, false, .none, none, false, false⟩

private def onePinned : Records := fun d => if d = "pb-a" then some pinned else none

/-- A device is pinned and not approved. Its approval is reported as failed, at the rename, and holds. -/
theorem unsaved_approval_holds :
    ¬ ((Stored.perform (.of true (some .rename)) ⟨onePinned, onePinned⟩
        (.approveWith "pb-a" true none .grantedOnApproval)).2 = none →
      (Stored.perform (.of true (some .rename)) ⟨onePinned, onePinned⟩
          (.approveWith "pb-a" true none .grantedOnApproval)).1.file = onePinned ∧
        ∀ d, SameAnswers ((Stored.perform (.of true (some .rename)) ⟨onePinned, onePinned⟩
          (.approveWith "pb-a" true none .grantedOnApproval)).1.cache d) (onePinned d)) := by
  intro atomic
  have files := ((atomic (by decide)).2 "pb-a" 0).2.2 .files
  revert files
  decide

end PeerBeam.Trust
