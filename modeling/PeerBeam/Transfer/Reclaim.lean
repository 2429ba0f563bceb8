import PeerBeam.Transfer.Checkpoint
import PeerBeam.Transfer.Staging

/-! Which staging file goes when a receive is thrown away: its path is worked out again from the
checkpoint, while the file itself was staged wherever the receive found room. -/
namespace PeerBeam.Transfer
open Trust (DeviceId)

/-- A checkpoint, and the transfer it was written for. An offer that resumes continues a transfer. -/
structure Filed where
  session : TransferSession
  transfer : Nat

/-- One inbound transfer past the approval gate, from its checkpoint to its end. -/
structure Leg where
  id : String
  transfer : Nat
  checkpoint : Option TransferSession
  dir : Path
  preview : TransferPreview
  /-- Still in `active`. -/
  registered : Bool
  /-- `cancel` was called on it. -/
  cancelled : Bool
  running : Bool
  /-- Its calls of `claim_destination`. -/
  claims : List Nat

def Leg.throws (leg : Leg) (outcome : Option TransferOutcome) : List Filed :=
  match leg.checkpoint, outcome with
  | some session, some .cancelled => if leg.cancelled then [⟨session, leg.transfer⟩] else []
  | _, _ => []

/-- A staging file that was removed on behalf of a transfer, and the transfers whose bytes it held. -/
structure Removal where
  transfer : Nat
  file : Path
  writers : List Nat
  deriving DecidableEq

structure Removing where
  removes : Path → Bool
  clears : String → Bool

structure Intake where
  staging : Process
  /-- The transfers whose calls of `claim_destination` the process has seen. -/
  owners : List Nat
  /-- The transfers that claimed a staging path, since the last claim that found no file there. -/
  claimed : Path → List Nat
  /-- The staging files on disk and the transfers whose bytes they hold. -/
  parts : Path → Option (List Nat)
  legs : List Leg
  store : Std.ExtTreeMap String Filed
  /-- Calls of `discard_interrupted` that have read their checkpoint. -/
  discards : List Filed
  removed : List Removal
  /-- The next transfer's number. -/
  next : Nat

inductive IntakeEvent
  /-- An offer gets past the gate, under the id that `handle_incoming` registered; `dir` is what the
  rules say. -/
  | accept (id : String) (peer : DeviceId) (preview : TransferPreview) (dir : Path) (now : Int) (saves : Bool)
  /-- The receive engine has a file's meta and claims its destination. -/
  | file (l : Nat) (name : Path)
  /-- It has a folder's next entry. -/
  | entry (l : Nat) (dest : Path)
  | search (i : Nat) (stat : Stat)
  | take (i : Nat)
  /-- The engine opens the staging file of the `i`-th claim: it goes on after the bytes that are there, or
  begins anew. -/
  | openPart (i : Nat) (append : Bool)
  /-- The file gets its name, or it fails its checksum and is removed by the engine that wrote it. -/
  | finish (i : Nat)
  /-- The engine is done with a claim, in whatever way. -/
  | release (i : Nat)
  /-- The progress pump writes the checkpoint again. -/
  | record (l : Nat) (transferred : Nat) (saves : Bool)
  | cancel (id : String)
  /-- `drive` has returned; `none` is an error. -/
  | settle (l : Nat) (outcome : Option TransferOutcome) (fs : Removing)
  /-- `discard_interrupted` reads the checkpoint. -/
  | discard (id : String)
  /-- It goes on with what it read. -/
  | reclaim (k : Nat) (fs : Removing)
  /-- The process ends and starts again, with `sweep_checkpoints`. -/
  | restart (now : Int) (fs : Removing)

namespace Intake
variable (s : Intake)

def start : Intake := ⟨.start, [], fun _ => [], fun _ => none, [], ∅, [], [], 0⟩

def holding (i : Nat) : Option Path :=
  match s.staging.receives[i]? with
  | some (.holding _ part) => some part
  | _ => none

/-- `Manager::reclaim`. -/
def reclaimed (fs : Removing) (c : Filed) : Intake :=
  match partialFile c.session with
  | none => s
  | some part =>
    match s.parts part with
    | none => s
    | some writers =>
      if fs.removes part then
        { s with
          parts := Function.update s.parts part none
          removed := s.removed ++ [⟨c.transfer, part, writers⟩] }
      else s

def clear (fs : Removing) (id : String) : Intake :=
  if fs.clears id then { s with store := s.store.erase id } else s

/-- `discard_checkpoint`, and one turn of `sweep_checkpoints`. -/
def discarded (fs : Removing) (c : Filed) : Intake := (s.reclaimed fs c).clear fs c.session.id

/-- The checkpoints that `sweep_checkpoints` finds too old. -/
def stale (now : Int) : List Filed := (s.store.toList.map Prod.snd).filter fun c => isExpired c.session now

def save (c : Filed) (saves : Bool) : Intake :=
  if saves then { s with store := s.store.insert c.session.id c } else s

def setLeg (l : Nat) (leg : Leg) : Intake := { s with legs := s.legs.set l leg }

def noted (i : Nat) : Intake :=
  match s.holding i, s.owners[i]? with
  | some part, some transfer =>
    let before := if (s.parts part).isNone then [] else s.claimed part
    { s with claimed := Function.update s.claimed part (transfer :: before) }
  | _, _ => s

/-- A leg calls `claim_destination`. -/
def claim (l : Nat) (leg : Leg) (dest : Path) : Intake :=
  noted
    { s.setLeg l { leg with claims := leg.claims ++ [s.staging.receives.length] } with
      staging := s.staging.step (.call dest)
      owners := s.owners ++ [leg.transfer] }
    s.staging.receives.length

/-- What `handle_incoming` does once an offer is accepted. -/
def accept (id : String) (peer : DeviceId) (preview : TransferPreview) (dir : Path) (now : Int) (saves : Bool) :
    Intake :=
  let prior := s.store[id]?
  let resuming := resumesAcceptedReceive (prior.map Filed.session) peer preview
  let transfer := match prior with
    | some c => if resuming then c.transfer else s.next
    | none => s.next
  let dir := (resumeDestination (prior.map Filed.session) peer preview).getD dir
  let checkpoint := if preview.isFolder then none else
    some (newCheckpoint (prior.map Filed.session) id peer .receiving (recordedPath dir preview.name) preview.name
      preview.size true now)
  let s := { s with
    legs := s.legs ++ [⟨id, transfer, checkpoint, dir, preview, true, false, true, []⟩]
    next := s.next + 1 }
  match checkpoint with
  | some session => s.save ⟨session, transfer⟩ saves
  | none => s

/-- The leg is over: its checkpoint goes or stays, and its registration ends. -/
def settle (l : Nat) (leg : Leg) (outcome : Option TransferOutcome) (fs : Removing) : Intake :=
  let done := s.setLeg l { leg with running := false, registered := false }
  match leg.checkpoint, outcome with
  | some session, some .completed => done.clear fs session.id
  | some session, some .cancelled => if leg.cancelled then done.discarded fs ⟨session, leg.transfer⟩ else done
  | _, _ => done

def step : IntakeEvent → Intake
  | .accept id peer preview dir now saves =>
    -- `register_vacant` and `register_fresh` only take an id that nobody live has.
    if s.legs.any fun leg => leg.registered && leg.id = id then s
    else s.accept id peer preview dir now saves
  | .file l name =>
    match s.legs[l]? with
    | some leg =>
      -- The frame that was looked at is the one the engine reads.
      if leg.running && leg.claims.isEmpty && !leg.preview.isFolder then
        s.claim l leg (localPath leg.dir (if leg.preview.name = [] then sanitizeFileName name else leg.preview.name))
      else s
    | none => s
  | .entry l dest =>
    match s.legs[l]? with
    | some leg =>
      if leg.running && (leg.preview.isFolder || leg.preview.name = []) then s.claim l leg dest else s
    | none => s
  | .search i stat => { s with staging := s.staging.step (.search i stat) }
  | .take i =>
    match s.staging.receives[i]? with
    | some (.chosen ..) => noted { s with staging := s.staging.step (.take i) } i
    | _ => s
  | .openPart i append =>
    match s.holding i, s.owners[i]? with
    | some part, some transfer =>
      let before := if append then (s.parts part).getD [] else []
      { s with parts := Function.update s.parts part (some (transfer :: before)) }
    | _, _ => s
  | .finish i =>
    match s.holding i with
    | some part => { s with parts := Function.update s.parts part none }
    | none => s
  | .release i => { s with staging := s.staging.step (.drop i) }
  | .record l transferred saves =>
    match s.legs[l]? with
    | some leg =>
      match leg.checkpoint with
      | some session =>
        if leg.running then s.save ⟨{ session with transferredBytes := transferred }, leg.transfer⟩ saves else s
      | none => s
    | none => s
  | .cancel id =>
    { s with legs := s.legs.map fun leg =>
        if leg.registered && leg.id = id then { leg with registered := false, cancelled := true } else leg }
  | .settle l outcome fs =>
    match s.legs[l]? with
    | some leg =>
      if leg.running && leg.claims.all fun i => (s.holding i).isNone then s.settle l leg outcome fs else s
    | none => s
  | .discard id =>
    match s.store[id]? with
    | some c =>
      if s.legs.any fun leg => leg.registered && leg.id = id then s
      else { s with discards := s.discards ++ [c] }
    | none => s
  | .reclaim k fs =>
    match s.discards[k]? with
    | some c => { s.discarded fs c with discards := s.discards.eraseIdx k }
    | none => s
  | .restart now fs =>
    (s.stale now).foldl (fun s c => s.discarded fs c)
      { s with staging := .start, owners := [], legs := [], discards := [] }

def run (events : List IntakeEvent) : Intake := events.foldl step start

def throws : IntakeEvent → List Filed
  | .settle l outcome _ =>
    match s.legs[l]? with
    | some leg => if leg.running && leg.claims.all fun i => (s.holding i).isNone then leg.throws outcome else []
    | none => []
  | .reclaim k _ => s.discards[k]?.toList
  | .restart now _ => s.stale now
  | _ => []

end Intake

/-- What the file system answers while an event removes files. -/
def IntakeEvent.removing : IntakeEvent → Removing
  | .settle _ _ fs | .reclaim _ fs | .restart _ fs => fs
  | _ => ⟨fun _ => true, fun _ => true⟩

namespace Intake
variable {s : Intake}

/-- Bytes in a staging file come from transfers that claimed its path, as did whoever holds it. -/
structure Traced (s : Intake) : Prop where
  exclusive : Exclusive s.staging
  owned : s.owners.length = s.staging.receives.length
  written : ∀ p writers, s.parts p = some writers → ∀ w ∈ writers, w ∈ s.claimed p
  held : ∀ i p, s.holding i = some p → ∃ w, s.owners[i]? = some w ∧ w ∈ s.claimed p

theorem holding_eq_some {i : Nat} {p : Path} : s.holding i = some p ↔ s.staging.Holds i p := by
  unfold holding Process.Holds
  constructor
  · intro held
    split at held
    · next dest part at_i =>
      cases held
      exact ⟨dest, at_i⟩
    · cases held
  · rintro ⟨dest, at_i⟩
    rw [at_i]

/-- What leaves the claims as they are and adds no bytes keeps every trace. -/
theorem Traced.frame {s' : Intake} (h : Traced s) (staging : s'.staging = s.staging) (owners : s'.owners = s.owners)
    (claimed : s'.claimed = s.claimed) (parts : ∀ p writers, s'.parts p = some writers → s.parts p = some writers) :
    Traced s' where
  exclusive := staging ▸ h.exclusive
  owned := by rw [staging, owners, h.owned]
  written p writers there := by rw [claimed]; exact h.written p writers (parts p writers there)
  held i p holds := by
    rw [owners, claimed]
    exact h.held i p (by rwa [holding, staging] at holds)

/-- The checkpoints `cs` are thrown away: their staging files go where the file system lets them. -/
structure Threw (s : Intake) (fs : Removing) (cs : List Filed) (s' : Intake) : Prop where
  staging : s'.staging = s.staging
  owners : s'.owners = s.owners
  claimed : s'.claimed = s.claimed
  gone : ∀ p, s'.parts p = if (∃ c ∈ cs, partialFile c.session = some p) ∧ fs.removes p = true then none else s.parts p
  logged : ∀ r ∈ s'.removed, r ∈ s.removed ∨
    ∃ c ∈ cs, r.transfer = c.transfer ∧ partialFile c.session = some r.file ∧ s.parts r.file = some r.writers

theorem Threw.shrinks {s' : Intake} {fs : Removing} {cs : List Filed} (h : Threw s fs cs s') {p : Path}
    {writers : List Nat} (there : s'.parts p = some writers) : s.parts p = some writers := by
  rw [h.gone] at there
  split at there
  · cases there
  · exact there

theorem reclaimed_threw (s : Intake) (fs : Removing) (c : Filed) : Threw s fs [c] (s.reclaimed fs c) := by
  have idle (none_there : ∀ p, partialFile c.session = some p → s.parts p = none ∨ ¬ fs.removes p = true) :
      Threw s fs [c] s := by
    refine ⟨rfl, rfl, rfl, fun p => ?_, fun r mem => .inl mem⟩
    split
    · next taken =>
      obtain ⟨⟨d, mem, part⟩, removes⟩ := taken
      cases List.mem_singleton.mp mem
      exact (none_there p part).resolve_right (not_not_intro removes)
    · rfl
  unfold reclaimed
  cases part : partialFile c.session with
  | none => exact idle fun p some => nomatch part.symm.trans some
  | some p =>
    have same {q : Path} (there : partialFile c.session = some q) : q = p := Option.some.inj (there.symm.trans part)
    dsimp only
    cases there : s.parts p with
    | none => exact idle fun q some => .inl (same some ▸ there)
    | some writers =>
      dsimp only
      by_cases removes : fs.removes p = true
      · rw [if_pos removes]
        refine ⟨rfl, rfl, rfl, fun q => ?_, fun r mem => ?_⟩
        · by_cases eq : p = q
          · subst eq
            simp [part, removes]
          · simp [part, eq, Function.update_of_ne (Ne.symm eq)]
        · rcases List.mem_append.mp mem with old | new
          · exact .inl old
          · cases List.mem_singleton.mp new
            exact .inr ⟨c, List.mem_singleton_self c, rfl, part, there⟩
      · rw [if_neg removes]
        exact idle fun q some => .inr (same some ▸ removes)

theorem discarded_threw (s : Intake) (fs : Removing) (c : Filed) : Threw s fs [c] (s.discarded fs c) := by
  have threw := reclaimed_threw s fs c
  unfold discarded clear
  split
  · exact ⟨threw.staging, threw.owners, threw.claimed, threw.gone, threw.logged⟩
  · exact threw

theorem Threw.trans {s' s'' : Intake} {fs : Removing} {cs ds : List Filed} (h : Threw s fs cs s')
    (h' : Threw s' fs ds s'') : Threw s fs (cs ++ ds) s'' where
  staging := h'.staging.trans h.staging
  owners := h'.owners.trans h.owners
  claimed := h'.claimed.trans h.claimed
  gone p := by
    have both : (∃ c ∈ cs ++ ds, partialFile c.session = some p) ↔
        (∃ c ∈ cs, partialFile c.session = some p) ∨ ∃ c ∈ ds, partialFile c.session = some p := by
      simp only [List.mem_append, or_and_right, exists_or]
    rw [h'.gone, h.gone]
    simp only [both]
    by_cases removes : fs.removes p = true
    · by_cases late : ∃ c ∈ ds, partialFile c.session = some p
      · rw [if_pos ⟨late, removes⟩, if_pos ⟨.inr late, removes⟩]
      · simp only [late, false_and, if_false, or_false]
    · rw [if_neg (removes ·.2), if_neg (removes ·.2), if_neg (removes ·.2)]
  logged r mem := by
    rcases h'.logged r mem with mem | ⟨c, mem, transfer, part, there⟩
    · rcases h.logged r mem with old | ⟨c, mem, rest⟩
      · exact .inl old
      · exact .inr ⟨c, List.mem_append_left _ mem, rest⟩
    · exact .inr ⟨c, List.mem_append_right _ mem, transfer, part, h.shrinks there⟩

theorem Threw.nothing (s : Intake) (fs : Removing) : Threw s fs [] s :=
  ⟨rfl, rfl, rfl, by simp, fun _ mem => .inl mem⟩

/-- A whole sweep. -/
theorem sweep_threw (fs : Removing) (cs : List Filed) (s : Intake) :
    Threw s fs cs (cs.foldl (fun s c => s.discarded fs c) s) := by
  induction cs generalizing s with
  | nil => exact Threw.nothing s fs
  | cons c cs ih => exact (discarded_threw s fs c).trans (ih _)

/-- Neither the checkpoints nor the legs have a part in whose bytes a file holds. -/
structure Calm (s s' : Intake) : Prop where
  staging : s'.staging = s.staging
  owners : s'.owners = s.owners
  claimed : s'.claimed = s.claimed
  parts : s'.parts = s.parts
  removed : s'.removed = s.removed

theorem Calm.refl (s : Intake) : Calm s s := ⟨rfl, rfl, rfl, rfl, rfl⟩

theorem Calm.trans {s' s'' : Intake} (h : Calm s s') (h' : Calm s' s'') : Calm s s'' :=
  ⟨h'.staging.trans h.staging, h'.owners.trans h.owners, h'.claimed.trans h.claimed, h'.parts.trans h.parts,
    h'.removed.trans h.removed⟩

theorem save_calm (s : Intake) (c : Filed) (saves : Bool) : Calm s (s.save c saves) := by
  unfold save
  split <;> exact ⟨rfl, rfl, rfl, rfl, rfl⟩

theorem clear_calm (s : Intake) (fs : Removing) (id : String) : Calm s (s.clear fs id) := by
  unfold clear
  split <;> exact ⟨rfl, rfl, rfl, rfl, rfl⟩

theorem accept_calm (s : Intake) (id : String) (peer : DeviceId) (preview : TransferPreview) (dir : Path)
    (now : Int) (saves : Bool) : Calm s (s.accept id peer preview dir now saves) := by
  unfold accept
  dsimp only
  split
  · exact ⟨(save_calm _ _ _).staging, (save_calm _ _ _).owners, (save_calm _ _ _).claimed, (save_calm _ _ _).parts,
      (save_calm _ _ _).removed⟩
  · exact ⟨rfl, rfl, rfl, rfl, rfl⟩

/-- A claim only concerns its path's claims. -/
theorem noted_eq (s : Intake) (i : Nat) : ∃ claimed, s.noted i = { s with claimed := claimed } := by
  unfold noted
  split
  · exact ⟨_, rfl⟩
  · exact ⟨s.claimed, rfl⟩

theorem noted_removed (s : Intake) (i : Nat) : (s.noted i).removed = s.removed := by
  obtain ⟨claimed, eq⟩ := noted_eq s i
  rw [eq]

theorem claim_removed (s : Intake) (l : Nat) (leg : Leg) (dest : Path) : (s.claim l leg dest).removed = s.removed :=
  noted_removed ..

theorem Threw.of_eq {s₀ s' s₁ : Intake} {fs : Removing} {cs : List Filed} (h : Threw s₀ fs cs s₁) (before : Calm s s₀)
    (after : Calm s₁ s') : Threw s fs cs s' where
  staging := after.staging.trans (h.staging.trans before.staging)
  owners := after.owners.trans (h.owners.trans before.owners)
  claimed := after.claimed.trans (h.claimed.trans before.claimed)
  gone p := by rw [after.parts, h.gone, before.parts]
  logged r mem := by
    rw [after.removed] at mem
    simpa only [before.removed, before.parts] using h.logged r mem

theorem settle_threw (s : Intake) (l : Nat) (leg : Leg) (outcome : Option TransferOutcome) (fs : Removing) :
    Threw s fs (leg.throws outcome) (s.settle l leg outcome fs) := by
  have done (leg' : Leg) : Calm s (s.setLeg l leg') := ⟨rfl, rfl, rfl, rfl, rfl⟩
  have idle (leg' : Leg) : Threw s fs [] (s.setLeg l leg') := (Threw.nothing s fs).of_eq (.refl s) (done leg')
  unfold settle Leg.throws
  dsimp only
  cases leg.checkpoint with
  | none => exact idle _
  | some session =>
    rcases outcome with _ | (_ | _)
    · exact idle _
    · exact (idle _).of_eq (.refl s) (clear_calm ..)
    · dsimp only
      split
      · exact (discarded_threw _ fs _).of_eq (done _) (.refl _)
      · exact idle _

/-- An event throws nothing away and removes nothing, or it does no more than throw its checkpoints away; a
restart first lets go of the claims. -/
theorem step_threw (s : Intake) (event : IntakeEvent) :
    (s.throws event = [] ∧ (s.step event).removed = s.removed) ∨
      ∃ ready : Intake, ready.parts = s.parts ∧ ready.removed = s.removed ∧
        Threw ready event.removing (s.throws event) (s.step event) := by
  cases event with
  | accept id peer preview dir now saves =>
    left
    unfold throws step
    dsimp only
    split
    · exact ⟨rfl, rfl⟩
    · exact ⟨rfl, (accept_calm s id peer preview dir now saves).removed⟩
  | file l name =>
    left
    unfold throws step
    dsimp only
    split
    · split <;> exact ⟨rfl, by first | rfl | exact claim_removed ..⟩
    · exact ⟨rfl, rfl⟩
  | entry l dest =>
    left
    unfold throws step
    dsimp only
    split
    · split <;> exact ⟨rfl, by first | rfl | exact claim_removed ..⟩
    · exact ⟨rfl, rfl⟩
  | search i stat => exact .inl ⟨rfl, rfl⟩
  | take i =>
    left
    unfold throws step
    dsimp only
    split
    · exact ⟨rfl, noted_removed ..⟩
    · exact ⟨rfl, rfl⟩
  | openPart i append =>
    left
    unfold throws step
    dsimp only
    split <;> exact ⟨rfl, rfl⟩
  | finish i =>
    left
    unfold throws step
    dsimp only
    split <;> exact ⟨rfl, rfl⟩
  | release i => exact .inl ⟨rfl, rfl⟩
  | record l transferred saves =>
    left
    unfold throws step
    dsimp only
    split
    · split
      · split
        · exact ⟨rfl, (save_calm ..).removed⟩
        · exact ⟨rfl, rfl⟩
      · exact ⟨rfl, rfl⟩
    · exact ⟨rfl, rfl⟩
  | cancel id => exact .inl ⟨rfl, rfl⟩
  | settle l outcome fs =>
    refine .inr ⟨s, rfl, rfl, ?_⟩
    unfold throws step
    dsimp only
    cases s.legs[l]? with
    | none => exact Threw.nothing s fs
    | some leg =>
      dsimp only
      split
      · exact settle_threw s l leg outcome fs
      · exact Threw.nothing s fs
  | discard id =>
    left
    unfold throws step
    dsimp only
    split
    · split <;> exact ⟨rfl, rfl⟩
    · exact ⟨rfl, rfl⟩
  | reclaim k fs =>
    refine .inr ⟨s, rfl, rfl, ?_⟩
    unfold throws step
    dsimp only
    cases s.discards[k]? with
    | none => exact Threw.nothing s fs
    | some c => exact (discarded_threw s fs c).of_eq (.refl s) ⟨rfl, rfl, rfl, rfl, rfl⟩
  | restart now fs =>
    exact .inr ⟨{ s with staging := .start, owners := [], legs := [], discards := [] }, rfl, rfl,
      sweep_threw fs (s.stale now) _⟩

theorem receives_length (process : Process) (event : StagingEvent) :
    (process.step event).receives.length =
      process.receives.length + match event with | .call _ => 1 | _ => 0 := by
  unfold Process.step
  cases event with
  | call dest =>
    dsimp only
    split <;> simp
  | search i stat =>
    dsimp only
    split
    · split <;> simp [Process.update, Process.fail]
    · rfl
  | take i =>
    dsimp only
    split
    · split <;> simp [Process.update, Process.fail]
    · rfl
  | drop i =>
    dsimp only
    split
    · simp [Process.update]
    · rfl

/-- A claim that is under way leaves what the others hold. -/
theorem holds_others {process : Process} {i : Nat} {event : StagingEvent}
    (own : event = .take i ∨ event = .drop i ∨ ∃ stat, event = .search i stat) {j : Nat} (other : j ≠ i) (p : Path) :
    (process.step event).Holds j p ↔ process.Holds j p := by
  have same (r : Receive) : (process.update i r).Holds j p ↔ process.Holds j p := by
    unfold Process.Holds Process.update
    rw [List.getElem?_set_ne (Ne.symm other)]
  rcases own with rfl | rfl | ⟨stat, rfl⟩
  · unfold Process.step
    dsimp only
    split
    · split <;> exact same _
    · rfl
  · unfold Process.step
    dsimp only
    split
    · exact same _
    · rfl
  · unfold Process.step
    dsimp only
    split
    · split <;> exact same _
    · rfl

/-- A claim gets what it holds from the first call or from the second take. -/
theorem holds_own {process : Process} {i : Nat} {event : StagingEvent}
    (own : event = .drop i ∨ ∃ stat, event = .search i stat) (p : Path) (held : (process.step event).Holds i p) :
    process.Holds i p := by
  have lost {r : Receive} (none_left : ∀ dest part, r ≠ .holding dest part) {old : Receive}
      (at_i : process.receives[i]? = some old) : ¬ (process.update i r).Holds i p := by
    rw [holds_update at_i, if_pos rfl]
    rintro ⟨dest, eq⟩
    exact none_left dest p eq
  rcases own with rfl | ⟨stat, rfl⟩
  · unfold Process.step at held
    dsimp only at held
    split at held
    · next at_i => exact absurd held (lost (by simp) at_i)
    · exact held
  · unfold Process.step at held
    dsimp only at held
    split at held
    · next at_i =>
      split at held
      · exact absurd held (lost (by simp) at_i)
      · exact absurd held (lost (by simp) at_i)
    · exact held

/-- The `i`-th claim has just come to hold its path, or holds none. -/
theorem Traced.noted {i : Nat} (exclusive : Exclusive s.staging) (owned : s.owners.length = s.staging.receives.length)
    (written : ∀ p writers, s.parts p = some writers → ∀ w ∈ writers, w ∈ s.claimed p)
    (held : ∀ j ≠ i, ∀ p, s.holding j = some p → ∃ w, s.owners[j]? = some w ∧ w ∈ s.claimed p) :
    Traced (s.noted i) := by
  unfold Intake.noted
  cases mine : s.holding i with
  | none =>
    refine ⟨exclusive, owned, written, fun j p holds => held j ?_ p holds⟩
    rintro rfl
    cases mine.symm.trans holds
  | some part =>
    obtain ⟨dest, at_i⟩ := holding_eq_some.mp mine
    have inside : i < s.owners.length := owned ▸ (List.getElem?_eq_some_iff.mp at_i).1
    rw [List.getElem?_eq_getElem inside]
    dsimp only
    refine ⟨exclusive, owned, fun p writers there w mem => ?_, fun j p holds => ?_⟩
    · by_cases same : p = part
      · subst same
        dsimp only at there ⊢
        rw [Function.update_self, there]
        exact List.mem_cons_of_mem _ (written p writers there w mem)
      · dsimp only
        rw [Function.update_of_ne same]
        exact written p writers there w mem
    · by_cases own : j = i
      · subst own
        cases mine.symm.trans holds
        exact ⟨_, List.getElem?_eq_getElem inside, by simp⟩
      · have apart : p ≠ part := by
          rintro rfl
          exact own (exclusive.once j i p (holding_eq_some.mp holds) ⟨dest, at_i⟩)
        dsimp only
        rw [Function.update_of_ne apart]
        exact held j own p holds

theorem Traced.claim (h : Traced s) (l : Nat) (leg : Leg) (dest : Path) : Traced (s.claim l leg dest) := by
  apply Traced.noted
  · exact step_exclusive h.exclusive (.call dest)
  · show (s.owners ++ [leg.transfer]).length = (s.staging.step (.call dest)).receives.length
    rw [receives_length, List.length_append, h.owned]
    rfl
  · exact h.written
  · intro j other p holds
    have before : s.staging.Holds j p := by
      have holds : (s.staging.step (.call dest)).Holds j p := holding_eq_some.mp holds
      unfold Process.step at holds
      dsimp only at holds
      split at holds
      · exact ((holds_append j p).mp holds).resolve_right (other ·.1)
      · exact ((holds_append j p).mp holds).resolve_right (other ·.1)
    obtain ⟨w, owner, mem⟩ := h.held j p (holding_eq_some.mpr before)
    refine ⟨w, ?_, mem⟩
    show (s.owners ++ [leg.transfer])[j]? = some w
    rw [List.getElem?_append_left (List.getElem?_eq_some_iff.mp owner).1, owner]

theorem Threw.traced {s' : Intake} {fs : Removing} {cs : List Filed} (threw : Threw s fs cs s') (h : Traced s) :
    Traced s' :=
  h.frame threw.staging threw.owners threw.claimed fun _ _ there => threw.shrinks there

theorem Calm.traced {s' : Intake} (calm : Calm s s') (h : Traced s) : Traced s' :=
  h.frame calm.staging calm.owners calm.claimed fun p _ there => congrFun calm.parts p ▸ there

/-- A claim goes on without getting anything. -/
theorem Traced.idle (h : Traced s) {i : Nat} {event : StagingEvent}
    (own : event = .drop i ∨ ∃ stat, event = .search i stat) :
    Traced { s with staging := s.staging.step event } where
  exclusive := step_exclusive h.exclusive _
  owned := by
    rw [receives_length, h.owned]
    rcases own with rfl | ⟨stat, rfl⟩ <;> rfl
  written := h.written
  held j p holds := by
    refine h.held j p (holding_eq_some.mpr ?_)
    have holds : (s.staging.step event).Holds j p := holding_eq_some.mp holds
    by_cases same : j = i
    · subst same
      exact holds_own own p holds
    · exact (holds_others (.inr own) same p).mp holds

theorem exclusive_start : Exclusive .start :=
  ⟨by simp [Process.start, Process.Holds], by simp [Process.start, Process.Holds]⟩

theorem Traced.step (h : Traced s) (event : IntakeEvent) : Traced (s.step event) := by
  cases event with
  | accept id peer preview dir now saves =>
    unfold Intake.step
    dsimp only
    split
    · exact h
    · exact (accept_calm s id peer preview dir now saves).traced h
  | file l name =>
    unfold Intake.step
    dsimp only
    split
    · split
      · exact h.claim ..
      · exact h
    · exact h
  | entry l dest =>
    unfold Intake.step
    dsimp only
    split
    · split
      · exact h.claim ..
      · exact h
    · exact h
  | search i stat => exact h.idle (.inr ⟨stat, rfl⟩)
  | take i =>
    unfold Intake.step
    dsimp only
    split
    · apply Traced.noted
      · exact step_exclusive h.exclusive (.take i)
      · exact h.owned.trans (receives_length s.staging (.take i)).symm
      · exact h.written
      · intro j other p holds
        have holds : (s.staging.step (.take i)).Holds j p := holding_eq_some.mp holds
        exact h.held j p (holding_eq_some.mpr ((holds_others (.inl rfl) other p).mp holds))
    · exact h
  | openPart i append =>
    unfold Intake.step
    dsimp only
    split
    · next part transfer mine owner =>
      refine ⟨h.exclusive, h.owned, fun p writers there w mem => ?_, h.held⟩
      by_cases same : p = part
      · subst same
        dsimp only at there
        rw [Function.update_self] at there
        cases there
        obtain ⟨w', owner', claimed⟩ := h.held i p mine
        cases owner.symm.trans owner'
        rcases List.mem_cons.mp mem with rfl | old
        · exact claimed
        · split at old
          · cases before : s.parts p with
            | none => simp [before] at old
            | some earlier => exact h.written p earlier before w (by simpa [before] using old)
          · cases old
      · dsimp only at there
        rw [Function.update_of_ne same] at there
        exact h.written p writers there w mem
    · exact h
  | finish i =>
    unfold Intake.step
    dsimp only
    split
    · next part _ =>
      refine h.frame rfl rfl rfl fun p writers there => ?_
      by_cases same : p = part
      · subst same
        dsimp only at there
        rw [Function.update_self] at there
        cases there
      · dsimp only at there
        rwa [Function.update_of_ne same] at there
    · exact h
  | release i => exact h.idle (.inl rfl)
  | record l transferred saves =>
    unfold Intake.step
    dsimp only
    split
    · split
      · split
        · exact (save_calm ..).traced h
        · exact h
      · exact h
    · exact h
  | cancel id => exact h.frame rfl rfl rfl fun _ _ there => there
  | settle l outcome fs =>
    unfold Intake.step
    dsimp only
    split
    · split
      · exact (settle_threw ..).traced h
      · exact h
    · exact h
  | discard id =>
    unfold Intake.step
    dsimp only
    split
    · split
      · exact h
      · exact h.frame rfl rfl rfl fun _ _ there => there
    · exact h
  | reclaim k fs =>
    unfold Intake.step
    dsimp only
    split
    · next c _ =>
      have kept := (discarded_threw s fs c).traced h
      exact kept.frame rfl rfl rfl fun _ _ there => there
    · exact h
  | restart now fs =>
    have fresh : Traced { s with staging := .start, owners := [], legs := [], discards := [] } :=
      ⟨exclusive_start, rfl, h.written, by simp [holding, Process.start]⟩
    exact (sweep_threw fs (s.stale now) _).traced fresh

/-- No other transfer has claimed the staging file that a checkpoint points at, its own transfer has claimed no
other, and the file system removes it. -/
def Sole (s : Intake) (fs : Removing) (c : Filed) : Prop :=
  (∀ p, c.transfer ∈ s.claimed p → partialFile c.session = some p) ∧
    ∀ p, partialFile c.session = some p → (∀ w ∈ s.claimed p, w = c.transfer) ∧ fs.removes p = true

/-- Every checkpoint the event throws away has its staging file to itself. -/
def Undisputed (s : Intake) (event : IntakeEvent) : Prop := ∀ c ∈ s.throws event, Sole s event.removing c

/-- Nothing that a transfer wrote outlives a checkpoint of its that the event throws away. -/
def Swept (s : Intake) (event : IntakeEvent) : Prop :=
  ∀ c ∈ s.throws event, ∀ p writers, (s.step event).parts p = some writers → c.transfer ∉ writers

def Fair (s : Intake) : Prop := ∀ r ∈ s.removed, ∀ w ∈ r.writers, w = r.transfer

theorem Fair.step (fair : Fair s) (h : Traced s) {event : IntakeEvent} (sole : Undisputed s event) :
    Fair (s.step event) := by
  rcases step_threw s event with ⟨-, same⟩ | ⟨ready, parts, removed, threw⟩
  · rwa [Fair, same]
  · intro r mem w wrote
    rcases threw.logged r mem with old | ⟨c, thrown, transfer, part, there⟩
    · exact fair r (removed ▸ old) w wrote
    · rw [transfer]
      exact ((sole c thrown).2 r.file part).1 w (h.written r.file r.writers (parts ▸ there) w wrote)

theorem swept (h : Traced s) {event : IntakeEvent} (sole : Undisputed s event) : Swept s event := by
  intro c thrown p writers there wrote
  rcases step_threw s event with ⟨none, -⟩ | ⟨ready, parts, -, threw⟩
  · rw [none] at thrown
    cases thrown
  · have before : s.parts p = some writers := parts ▸ threw.shrinks there
    have part := (sole c thrown).1 p (h.written p writers before c.transfer wrote)
    rw [threw.gone, if_pos ⟨⟨c, thrown, part⟩, ((sole c thrown).2 p part).2⟩] at there
    cases there

/-- In every run of receives, cancellations, discards, sweeps and restarts in which each discarded checkpoint
has its staging file to itself, what is removed for a transfer is its own and all of it. -/
theorem discards_spare_others (events : List IntakeEvent) (sole : TransitionRun.Along step Undisputed start events) :
    Fair (run events) ∧ TransitionRun.Along step Swept start events := by
  have traced : Traced start := ⟨exclusive_start, rfl, by simp [start], by simp [start, holding, Process.start]⟩
  constructor
  · have both : Traced (run events) ∧ Fair (run events) := by
      refine sole.invariant (I := fun s => Traced s ∧ Fair s) ⟨traced, by simp [Fair, start]⟩ ?_
      rintro s event ⟨h, fair⟩ sole
      exact ⟨h.step event, fair.step h sole⟩
    exact both.2
  · rw [TransitionRun.along_iff] at sole ⊢
    intro pre event post split
    exact swept (TransitionRun.invariant traced (fun _ event h => h.step event) pre) (sole pre event post split)

def oneLetter : TransferPreview := ⟨"", ['f'], 3, false⟩

def obliging : Removing := ⟨fun _ => true, fun _ => true⟩

/-- Two receives of one name at a time, the first of which the user cancels. -/
def cancelled : List IntakeEvent :=
  [.accept "a" "ann" oneLetter ['d'] 0 true, .file 0 [], .openPart 0 false, .accept "b" "bob" oneLetter ['d'] 0 true,
    .file 1 [], .search 1 fun _ => .ok none, .take 1, .openPart 1 false, .cancel "a", .release 0,
    .settle 0 (some .cancelled) obliging]

theorem claimed_apart {p q r : Path} {t u w : Nat}
    (mem : w ∈ Function.update (Function.update (fun _ => []) q [t]) r [u] p) :
    p = r ∧ w = u ∨ p = q ∧ w = t := by
  by_cases last : p = r
  · subst last
    rw [Function.update_self] at mem
    exact .inl ⟨rfl, List.mem_singleton.mp mem⟩
  · rw [Function.update_of_ne last] at mem
    by_cases first : p = q
    · subst first
      rw [Function.update_self] at mem
      exact .inr ⟨rfl, List.mem_singleton.mp mem⟩
    · rw [Function.update_of_ne first] at mem
      cases mem

theorem cancelled_alone : Fair (run cancelled) ∧ TransitionRun.Along step Swept start cancelled := by
  apply discards_spare_others
  have nothing (s : Intake) (event : IntakeEvent) (none : s.throws event = []) : Undisputed s event := by
    intro c thrown
    rw [none] at thrown
    cases thrown
  refine ⟨nothing _ _ rfl, nothing _ _ rfl, nothing _ _ rfl, nothing _ _ rfl, nothing _ _ rfl, nothing _ _ rfl,
    nothing _ _ rfl, nothing _ _ rfl, nothing _ _ rfl, nothing _ _ rfl, ?_, trivial⟩
  intro c thrown
  have it : c = ⟨newCheckpoint none "a" "ann" .receiving ['d', '/', 'f'] ['f'] 3 true 0, 0⟩ :=
    List.mem_singleton.mp thrown
  subst it
  have apart {p : Path} {w : Nat} (mem : w ∈ ((cancelled.take 10).foldl step start).claimed p) :
      p = "d/f (1).part".toList ∧ w = 1 ∨ p = "d/f.part".toList ∧ w = 0 := claimed_apart mem
  constructor
  · intro p mem
    rcases apart mem with ⟨-, other⟩ | ⟨rfl, -⟩
    · cases other
    · rfl
  · intro p part
    refine ⟨fun w mem => ?_, rfl⟩
    rcases apart mem with ⟨rfl, -⟩ | ⟨-, same⟩
    · exact absurd part (by decide +kernel)
    · exact same

/-- Two receives of one name at a time, the second of which the user cancels. -/
def cancelledSecond : List IntakeEvent :=
  [.accept "a" "ann" oneLetter ['d'] 0 true, .file 0 [], .openPart 0 false, .accept "b" "bob" oneLetter ['d'] 0 true,
    .file 1 [], .search 1 fun _ => .ok none, .take 1, .openPart 1 false, .cancel "b", .release 1,
    .settle 1 (some .cancelled) obliging]

/-- The first one's staging file goes while it is being written, and the second one's stays. -/
theorem cancelling_second_removes_first :
    ¬ Fair (run cancelledSecond) ∧ ¬ TransitionRun.Along step Swept start cancelledSecond ∧
      (run cancelledSecond).holding 0 = some "d/f.part".toList := by
  have removed : (run cancelledSecond).removed = [⟨1, "d/f.part".toList, [0]⟩] := by decide +kernel
  have stays : (run cancelledSecond).parts "d/f (1).part".toList = some [1] := by decide +kernel
  refine ⟨fun fair => ?_, fun swept => ?_, by decide +kernel⟩
  · have own := fair ⟨1, "d/f.part".toList, [0]⟩ (removed ▸ List.mem_singleton_self _) 0 (List.mem_singleton_self 0)
    cases own
  · have last := TransitionRun.along_iff.mp swept (cancelledSecond.take 10) (.settle 1 (some .cancelled) obliging) [] rfl
    refine last ⟨newCheckpoint none "b" "bob" .receiving ['d', '/', 'f'] ['f'] 3 true 0, 1⟩ ?_ _ _ stays ?_
    · exact List.mem_singleton_self _
    · exact List.mem_singleton_self 1

/-- An interrupted receive's file is taken up by another peer's of the same name, and goes when the older one's
checkpoint is discarded. -/
example :
    let events : List IntakeEvent :=
      [.accept "a" "ann" oneLetter ['d'] 0 true, .file 0 [], .openPart 0 false, .release 0, .settle 0 none obliging,
        .accept "b" "bob" oneLetter ['d'] 0 true, .file 1 [], .openPart 1 true, .discard "a", .reclaim 0 obliging]
    (run events).removed = [⟨0, "d/f.part".toList, [1, 0]⟩] ∧ (run events).holding 1 = some "d/f.part".toList := by
  decide +kernel

end Intake
end PeerBeam.Transfer
