import Mathlib
import PeerBeam.Lib.Run
import PeerBeam.Transfer.Names

/-! Which file a receive stages into. Live receives keep their staging paths in one set;
a receive whose first choice is held looks for a name that is free on disk. -/
namespace PeerBeam.Transfer

/-- What the storage says about a path: a file's size, no file, or an error. -/
abbrev Stat := Path → Except DomainError (Option Nat)

def attempts : Nat := 1000

/-- The loop of `free_destination`, with the attempts left. -/
def firstFree (stat : Stat) (dest : Path) : (left n : Nat) → Except DomainError Path
  | 0, _ => .error (.transfer ("no free name for " ++ dest.text ++ " after 1000 attempts"))
  | left + 1, n =>
    match stat (candidate dest n) with
    | .error e => .error e
    | .ok none => .ok (candidate dest n)
    | .ok (some _) => firstFree stat dest left (n + 1)

def freeDestination (stat : Stat) (dest : Path) : Except DomainError Path :=
  firstFree stat dest attempts 1

/-- `StagingClaim::take`: one step under the lock. -/
def take (inUse : List Path) (path : Path) : Option (List Path) :=
  if path ∈ inUse then none else some (path :: inUse)

/-- A whole call of `claim_destination`: its destination and staging path. `first` and
`second` are the paths that live receives hold when it takes. -/
def claimDestination (first : List Path) (stat : Stat) (second : List Path) (dest : Path) :
    Except DomainError (Path × Path) :=
  if partPath dest ∉ first then .ok (dest, partPath dest)
  else
    match freeDestination stat dest with
    | .error e => .error e
    | .ok free =>
      if partPath free ∉ second then .ok (free, partPath free)
      else .error (.transfer ("could not claim a staging file for " ++ dest.text))

/-- Where one call of `claim_destination` stands. Between its two takes other receives
go on. -/
inductive Receive where
  /-- The first choice is held; a free name is being looked for. -/
  | searching (dest : Path)
  /-- The search, with the answers it got, came to `free`. -/
  | chosen (dest : Path) (stat : Stat) (free : Path)
  | holding (dest part : Path)
  | failed (dest : Path) (error : DomainError)
  | ended

/-- The receives of a process. `refused` records the destinations that were refused
although one of their names was neither on disk nor held. -/
structure Process where
  inUse : List Path
  receives : List Receive
  refused : List Path

def Process.start : Process := ⟨[], [], []⟩

/-- All names for `dest` are taken, by the files the search met or by live claims. -/
def AllTaken (inUse : List Path) (dest : Path) (stat : Stat) : Prop :=
  ∀ n ∈ List.range' 1 attempts,
    (stat (candidate dest n)).toOption.bind id ≠ none ∨ partPath (candidate dest n) ∈ inUse

instance (inUse : List Path) (dest : Path) (stat : Stat) : Decidable (AllTaken inUse dest stat) :=
  inferInstanceAs (Decidable (∀ _ ∈ _, _ ∨ _))

inductive StagingEvent where
  /-- A receive calls `claim_destination`. -/
  | call (dest : Path)
  /-- The `i`-th receive goes through the names; every one is asked for once at most. -/
  | search (i : Nat) (stat : Stat)
  | take (i : Nat)
  /-- The `i`-th receive finishes, fails or is dropped, and with it its claim. -/
  | drop (i : Nat)

def Process.update (s : Process) (i : Nat) (r : Receive) : Process := { s with receives := s.receives.set i r }

/-- The `i`-th call ends with an error. -/
def Process.fail (s : Process) (i : Nat) (dest : Path) (stat : Stat) (e : DomainError) : Process :=
  { s.update i (.failed dest e) with
    refused := if AllTaken s.inUse dest stat then s.refused else s.refused ++ [dest] }

def Process.step (s : Process) : StagingEvent → Process
  | .call dest =>
    match Transfer.take s.inUse (partPath dest) with
    | some inUse => { s with inUse := inUse, receives := s.receives ++ [.holding dest (partPath dest)] }
    | none => { s with receives := s.receives ++ [.searching dest] }
  | .search i stat =>
    match s.receives[i]? with
    | some (.searching dest) =>
      match freeDestination stat dest with
      | .ok free => s.update i (.chosen dest stat free)
      | .error e => s.fail i dest stat e
    | _ => s
  | .take i =>
    match s.receives[i]? with
    | some (.chosen dest stat free) =>
      match Transfer.take s.inUse (partPath free) with
      | some inUse => { s.update i (.holding free (partPath free)) with inUse := inUse }
      | none => s.fail i dest stat (.transfer ("could not claim a staging file for " ++ dest.text))
    | _ => s
  | .drop i =>
    match s.receives[i]? with
    | some (.holding _ part) => { s.update i .ended with inUse := s.inUse.filter (· ≠ part) }
    | _ => s

def Process.run (events : List StagingEvent) : Process := events.foldl Process.step .start

/-- A call that nobody comes in between does what `claimDestination` says. -/
theorem claim_uninterrupted (s : Process) (dest : Path) (stat : Stat) :
    let i := s.receives.length
    (((s.step (.call dest)).step (.search i stat)).step (.take i)).receives[i]? =
      some (match claimDestination s.inUse stat s.inUse dest with
        | .ok (free, part) => .holding free part
        | .error e => .failed dest e) := by
  intro i
  unfold claimDestination
  by_cases held : partPath dest ∈ s.inUse
  · rw [if_neg (not_not.mpr held)]
    have called : s.step (.call dest) = { s with receives := s.receives ++ [.searching dest] } := by
      simp [Process.step, Transfer.take, held]
    rw [called]
    cases found : freeDestination stat dest with
    | error e => simp [Process.step, Process.fail, Process.update, found, i]
    | ok free =>
      by_cases held' : partPath free ∈ s.inUse
      · simp [Process.step, Process.fail, Process.update, found, Transfer.take, held', i]
      · simp [Process.step, Process.update, found, Transfer.take, held', i]
  · rw [if_pos held]
    simp [Process.step, Transfer.take, held, i]

theorem firstFree_ok_iff {stat : Stat} {dest free : Path} {left n : Nat} :
    firstFree stat dest left n = .ok free ↔
      ∃ k < left, free = candidate dest (n + k) ∧ stat (candidate dest (n + k)) = .ok none ∧
        ∀ j < k, ∃ size, stat (candidate dest (n + j)) = .ok (some size) := by
  induction left generalizing n with
  | zero => simp [firstFree]
  | succ left ih =>
    unfold firstFree
    constructor
    · intro found
      split at found
      · cases found
      · next free_here =>
        cases found
        exact ⟨0, by omega, rfl, free_here, by simp⟩
      · next size here =>
        obtain ⟨k, lt, eq, free_there, before⟩ := ih.mp found
        refine ⟨k + 1, by omega, by rw [eq]; congr 1; omega, by rwa [← Nat.add_assoc, Nat.add_right_comm], ?_⟩
        intro j lt
        cases j with
        | zero => exact ⟨size, here⟩
        | succ j => simpa [Nat.add_assoc, Nat.add_comm 1] using before j (by omega)
    · rintro ⟨k, lt, rfl, free_there, before⟩
      cases k with
      | zero => rw [Nat.add_zero] at free_there; rw [free_there]; rfl
      | succ k =>
        obtain ⟨size, here⟩ := before 0 (by omega)
        rw [Nat.add_zero] at here
        rw [here]
        refine ih.mpr ⟨k, by omega, by congr 1; omega, by rwa [Nat.add_assoc, Nat.add_comm 1], ?_⟩
        intro j lt
        simpa [Nat.add_assoc, Nat.add_comm 1] using before (j + 1) (by omega)

/-- The `n`-th name is the first without a file. -/
def FreeAt (stat : Stat) (dest : Path) (n : Nat) : Prop :=
  n < attempts ∧ stat (candidate dest (1 + n)) = .ok none ∧
    ∀ m < n, ∃ size, stat (candidate dest (1 + m)) = .ok (some size)

theorem freeDestination_ok_iff {stat : Stat} {dest : Path} :
    (∃ free, freeDestination stat dest = .ok free) ↔ ∃ n, FreeAt stat dest n := by
  unfold freeDestination
  constructor
  · rintro ⟨free, found⟩
    obtain ⟨k, lt, -, free_there, before⟩ := firstFree_ok_iff.mp found
    exact ⟨k, lt, free_there, before⟩
  · rintro ⟨k, lt, free_there, before⟩
    exact ⟨_, firstFree_ok_iff.mpr ⟨k, lt, rfl, free_there, before⟩⟩

/-- The `i`-th receive holds the staging path `p`. -/
def Process.Holds (s : Process) (i : Nat) (p : Path) : Prop := ∃ dest, s.receives[i]? = some (.holding dest p)

/-- The paths in use are those of live receives, and no two share one. -/
structure Exclusive (s : Process) : Prop where
  owned : ∀ p, p ∈ s.inUse ↔ ∃ i, s.Holds i p
  once : ∀ i j p, s.Holds i p → s.Holds j p → i = j

/-- Whatever the receives that hold nothing do leaves everything owned. -/
theorem Exclusive.congr {s s' : Process} (h : Exclusive s) (inUse : s'.inUse = s.inUse)
    (holds : ∀ i p, s'.Holds i p ↔ s.Holds i p) : Exclusive s' where
  owned p := by simp only [inUse, h.owned, holds]
  once i j p := by simpa only [holds] using h.once i j p

/-- A receive that held nothing takes a path nobody holds. -/
theorem Exclusive.taken {s s' : Process} (h : Exclusive s) {i : Nat} {part : Path} {inUse : List Path}
    (took : Transfer.take s.inUse part = some inUse) (eq : s'.inUse = inUse)
    (holds : ∀ j p, s'.Holds j p ↔ s.Holds j p ∨ (j = i ∧ p = part)) : Exclusive s' := by
  unfold Transfer.take at took
  split at took
  · cases took
  · next unheld =>
    cases took
    constructor
    · intro p
      simp only [eq, List.mem_cons, holds, h.owned]
      constructor
      · rintro (rfl | ⟨j, held⟩)
        · exact ⟨i, .inr ⟨rfl, rfl⟩⟩
        · exact ⟨j, .inl held⟩
      · rintro ⟨j, held | ⟨-, rfl⟩⟩
        · exact .inr ⟨j, held⟩
        · exact .inl rfl
    · intro j k p first second
      rcases (holds j p).mp first with first | ⟨rfl, rfl⟩ <;> rcases (holds k p).mp second with second | ⟨rfl, same⟩
      · exact h.once j k p first second
      · exact absurd ((h.owned p).mpr ⟨j, first⟩) (same ▸ unheld)
      · exact absurd ((h.owned p).mpr ⟨k, second⟩) unheld
      · rfl

theorem holds_update {s : Process} {i : Nat} {old new : Receive} (at_i : s.receives[i]? = some old) (j : Nat) (p : Path) :
    (s.update i new).Holds j p ↔ if j = i then ∃ dest, new = .holding dest p else s.Holds j p := by
  have inside : i < s.receives.length := (List.getElem?_eq_some_iff.mp at_i).1
  unfold Process.Holds Process.update
  rw [List.getElem?_set]
  split
  · next eq => simp [eq]
  · next ne => rw [if_neg (Ne.symm ne)]

/-- A receive without a claim changes to another state without one. -/
theorem holds_update_without {s : Process} {i : Nat} {old new : Receive}
    (at_i : s.receives[i]? = some old) (without : ∀ dest p, old ≠ .holding dest p)
    (without' : ∀ dest p, new ≠ .holding dest p) : ∀ j p, (s.update i new).Holds j p ↔ s.Holds j p := by
  intro j p
  rw [holds_update at_i]
  split
  · next eq =>
    subst eq
    simp only [without', exists_false, false_iff]
    rintro ⟨dest, held⟩
    rw [at_i] at held
    exact without dest p (Option.some.inj held)
  · rfl

theorem Exclusive.fail {s : Process} (h : Exclusive s) {i : Nat} {old : Receive} {dest : Path} {stat : Stat}
    {e : DomainError} (at_i : s.receives[i]? = some old) (without : ∀ dest p, old ≠ .holding dest p) :
    Exclusive (s.fail i dest stat e) :=
  h.congr rfl (holds_update_without at_i without (by simp))

theorem holds_append {s : Process} {r : Receive} (j : Nat) (p : Path) :
    Process.Holds { s with receives := s.receives ++ [r] } j p ↔
      s.Holds j p ∨ (j = s.receives.length ∧ ∃ dest, r = .holding dest p) := by
  unfold Process.Holds
  rw [List.getElem?_append]
  split
  · next inside =>
    have : j ≠ s.receives.length := by omega
    simp [this]
  · next outside =>
    rw [List.getElem?_eq_none (by omega : s.receives.length ≤ j)]
    by_cases eq : j = s.receives.length
    · simp [eq]
    · rw [List.getElem?_eq_none (by simp; omega)]
      simp [eq]

theorem step_exclusive {s : Process} (h : Exclusive s) (event : StagingEvent) : Exclusive (s.step event) := by
  cases event with
  | call dest =>
    unfold Process.step
    dsimp only
    split
    · next inUse took =>
      apply h.taken took rfl (i := s.receives.length)
      intro j p
      refine (holds_append j p).trans ?_
      simp [eq_comm]
    · have holds (j : Nat) (p : Path) :
          Process.Holds { s with receives := s.receives ++ [.searching dest] } j p ↔ s.Holds j p := by
        rw [holds_append]
        simp
      exact h.congr rfl holds
  | search i stat =>
    unfold Process.step
    dsimp only
    split
    · next dest at_i =>
      split
      · exact h.congr rfl (holds_update_without at_i (by simp) (by simp))
      · exact h.fail at_i (by simp)
    · exact h
  | take i =>
    unfold Process.step
    dsimp only
    split
    · next dest stat free at_i =>
      split
      · next inUse took =>
        apply h.taken took rfl (i := i)
        intro j p
        refine (holds_update at_i j p).trans ?_
        split
        · next eq =>
          subst eq
          have nothing : ¬ s.Holds j p := by
            rintro ⟨d, held⟩
            rw [at_i] at held
            cases held
          simp [nothing, eq_comm]
        · next ne => simp [ne]
      · exact h.fail at_i (by simp)
    · exact h
  | drop i =>
    unfold Process.step
    dsimp only
    split
    · next dest part at_i =>
      have holds (j : Nat) (p : Path) :
          Process.Holds { s.update i .ended with inUse := s.inUse.filter (· ≠ part) } j p ↔ s.Holds j p ∧ j ≠ i := by
        refine (holds_update at_i j p).trans ?_
        split
        · next eq => simp [eq]
        · next ne => simp [ne]
      have mine : s.Holds i part := ⟨dest, at_i⟩
      constructor
      · intro p
        simp only [holds, List.mem_filter, h.owned, decide_eq_true_eq]
        constructor
        · rintro ⟨⟨j, held⟩, other⟩
          refine ⟨j, held, ?_⟩
          rintro rfl
          obtain ⟨d, held⟩ := held
          rw [at_i] at held
          cases held
          exact other rfl
        · rintro ⟨j, held, ne⟩
          refine ⟨⟨j, held⟩, ?_⟩
          rintro rfl
          exact ne (h.once j i _ held mine)
      · intro j k p first second
        exact h.once j k p ((holds j p).mp first).1 ((holds k p).mp second).1
    · exact h

/-- What a step must find for its receive to be served: the search meets a name without
a file, the take meets a staging path nobody holds; or there is no name left. -/
def Clear (s : Process) : StagingEvent → Prop
  | .search i stat => ∀ dest, s.receives[i]? = some (.searching dest) →
      (∃ n, FreeAt stat dest n) ∨ AllTaken s.inUse dest stat
  | .take i => ∀ dest stat free, s.receives[i]? = some (.chosen dest stat free) →
      partPath free ∉ s.inUse ∨ AllTaken s.inUse dest stat
  | _ => True

theorem refused_fail (s : Process) (i : Nat) (dest : Path) (stat : Stat) (e : DomainError) :
    (s.fail i dest stat e).refused = s.refused ∧ AllTaken s.inUse dest stat ∨
      (s.fail i dest stat e).refused = s.refused ++ [dest] ∧ ¬ AllTaken s.inUse dest stat := by
  unfold Process.fail
  by_cases full : AllTaken s.inUse dest stat <;> simp [full]

/-- A step that is clear refuses nobody; any other refuses its receive. -/
theorem refused_step (s : Process) (event : StagingEvent) :
    (s.step event).refused = s.refused ∧ Clear s event ∨
      (∃ dest, (s.step event).refused = s.refused ++ [dest]) ∧ ¬ Clear s event := by
  cases event with
  | call dest =>
    left
    unfold Process.step
    dsimp only
    split <;> exact ⟨rfl, trivial⟩
  | search i stat =>
    unfold Process.step Clear
    dsimp only
    cases at_i : s.receives[i]? with
    | none => exact .inl ⟨rfl, by simp⟩
    | some r =>
      cases r with
      | searching dest =>
        simp only [Option.some.injEq, Receive.searching.injEq, forall_eq', ← freeDestination_ok_iff]
        cases found : freeDestination stat dest with
        | ok free => exact .inl ⟨rfl, .inl ⟨free, rfl⟩⟩
        | error e =>
          have none : ¬ ∃ free, Except.error e = (Except.ok free : Except DomainError Path) := by simp
          rcases refused_fail s i dest stat e with ⟨same, full⟩ | ⟨more, room⟩
          · exact .inl ⟨same, .inr full⟩
          · exact .inr ⟨⟨dest, more⟩, fun h => h.elim none room⟩
      | chosen | holding | failed | ended => exact .inl ⟨rfl, by simp⟩
  | take i =>
    unfold Process.step Clear
    dsimp only
    cases at_i : s.receives[i]? with
    | none => exact .inl ⟨rfl, by simp⟩
    | some r =>
      cases r with
      | chosen dest stat free =>
        dsimp only
        unfold Transfer.take
        by_cases held : partPath free ∈ s.inUse
        · rw [if_pos held]
          rcases refused_fail s i dest stat (.transfer ("could not claim a staging file for " ++ dest.text)) with
            ⟨same, full⟩ | ⟨more, room⟩
          · exact .inl ⟨same, by rintro _ _ _ ⟨⟩; exact .inr full⟩
          · exact .inr ⟨⟨dest, more⟩, fun h => (h dest stat free rfl).elim (fun unheld => unheld held) room⟩
        · rw [if_neg held]
          exact .inl ⟨rfl, by rintro _ _ _ ⟨⟩; exact .inl held⟩
      | searching | holding | failed | ended => exact .inl ⟨rfl, by simp⟩
  | drop i =>
    left
    unfold Process.step
    dsimp only
    split <;> exact ⟨rfl, trivial⟩

/-- Once somebody was refused, that stays on record. -/
theorem refused_run (s : Process) (events : List StagingEvent) :
    (events.foldl Process.step s).refused = [] ↔
      s.refused = [] ∧ TransitionRun.Along Process.step Clear s events := by
  induction events generalizing s with
  | nil => simp [TransitionRun.Along]
  | cons event events ih =>
    rw [List.foldl_cons, ih, TransitionRun.Along]
    rcases refused_step s event with ⟨same, clear⟩ | ⟨⟨dest, more⟩, blocked⟩
    · rw [same]
      simp [clear]
    · rw [more]
      simp [blocked]

/-- In every interleaving of receives no two ever hold one staging path, and everybody is
served as long as there are names left exactly when every search and every take on the
way was clear. -/
theorem staging_claims (events : List StagingEvent) :
    (∀ i j p, (Process.run events).Holds i p → (Process.run events).Holds j p → i = j) ∧
    ((Process.run events).refused = [] ↔ TransitionRun.Along Process.step Clear .start events) := by
  have start : Exclusive .start := ⟨by simp [Process.start, Process.Holds], by simp [Process.start, Process.Holds]⟩
  have exclusive := TransitionRun.invariant start (fun _ event h => step_exclusive h event) events
  refine ⟨exclusive.once, (refused_run .start events).trans ?_⟩
  exact and_iff_right rfl

/-- Three receives of one name at a time: the second takes the first numbered name, which
is not on disk yet, and the third comes to the same name. -/
theorem third_receive_refused :
    let dest : Path := ['f']
    let none : Stat := fun _ => .ok none
    (Process.run [.call dest, .call dest, .search 1 none, .take 1, .call dest, .search 2 none, .take 2]).refused =
      [dest] := by
  decide +kernel

end PeerBeam.Transfer
