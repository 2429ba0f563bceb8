import PeerBeam.Session.LaneAccounts

/-! What becomes of a frame that is sent on a lane: it is taken once, or the call that made it fails. -/
namespace PeerBeam.Session

def tally {β : Type} (log : List (ℕ × β)) (k : ℕ) : ℕ := log.countP fun entry => entry.1 = k

section
variable {β : Type} {log : List (ℕ × β)}

theorem tally_push (entry : ℕ × β) (k : ℕ) : tally (log ++ [entry]) k = tally log k + if entry.1 = k then 1 else 0 := by
  rw [tally, List.countP_append, List.countP_singleton, tally]
  by_cases same : entry.1 = k
  · rw [if_pos same, if_pos (decide_eq_true same)]
  · rw [if_neg same, if_neg (by rwa [decide_eq_true_eq])]

theorem tally_push_self (entry : ℕ × β) : tally (log ++ [entry]) entry.1 = tally log entry.1 + 1 := by
  rw [tally_push, if_pos rfl]

theorem tally_push_of_ne {entry : ℕ × β} {k : ℕ} (other : k ≠ entry.1) : tally (log ++ [entry]) k = tally log k := by
  rw [tally_push, if_neg (Ne.symm other), Nat.add_zero]

theorem ne_of_tally_eq_zero {k : ℕ} (none_ : tally log k = 0) {entry : ℕ × β} (mem : entry ∈ log) : entry.1 ≠ k := by
  intro same
  have away := List.countP_eq_zero.mp none_ entry mem
  exact away (decide_eq_true same)

end

theorem SendPhase.untaken_of_holding {phase : SendPhase} (holding : phase.holding = true) : phase.taken = false := by
  cases phase with
  | mustOpen | opening | mustPoll | polling | sleeping => rfl
  | locking | ready | sending => cases holding

namespace LaneSession
variable {ι Link : Type} [DecidableEq ι] {s s' : LaneSession ι Link}

def owner (s : LaneSession ι Link) (k : ℕ) : Option ι := s.calls[k]?.map Prod.fst

structure Going (s : LaneSession ι Link) (send : LaneSend) : Prop where
  unanswered : tally s.outcomes send.serial = 0
  frames : tally s.queued send.serial = if send.phase.taken then 1 else 0
  refusals : tally s.refused send.serial = if send.stale.isSome then 1 else 0

structure Ended (s : LaneSession ι Link) (outcome : ℕ × Except SendError Unit) : Prop where
  once : tally s.outcomes outcome.1 = 1
  frames : tally s.queued outcome.1 = if outcome.2.isOk then 1 else 0
  refusals : tally s.refused outcome.1 ≤ if outcome.2.isOk then 1 else 2

/-- The frame a log says was taken is the one its call built. -/
def Carries (s : LaneSession ι Link) (entry : ℕ × Lane × SessionFrame) : Prop :=
  ∃ i build f, s.calls[entry.1]? = some (i, entry.2.1, build) ∧ build entry.2.2.channel = .ok f ∧
    entry.2.2 = { f with channel := entry.2.2.channel }

structure Delivered (s : LaneSession ι Link) : Prop where
  numbered : ∀ i send, s.sends i = some send → s.calls[send.serial]? = some (i, send.lane, send.build)
  latest : ∀ i send, s.sends i = some send → ∀ k, s.owner k = some i → k ≤ send.serial
  going : ∀ i send, s.sends i = some send → s.Going send
  ended : ∀ outcome ∈ s.outcomes, s.Ended outcome
  known : ∀ k, k < s.calls.length → (∃ i send, s.sends i = some send ∧ send.serial = k) ∨ ∃ outcome ∈ s.outcomes, outcome.1 = k
  fresh : ∀ k, s.calls.length ≤ k → tally s.outcomes k = 0 ∧ tally s.queued k = 0 ∧ tally s.refused k = 0
  carried : ∀ entry ∈ s.queued, s.Carries entry
  ordered : s.queued.Pairwise fun a b => s.owner a.1 = s.owner b.1 → a.1 < b.1

structure Agree (s s' : LaneSession ι Link) (k : ℕ) : Prop where
  outcomes : tally s'.outcomes k = tally s.outcomes k
  queued : tally s'.queued k = tally s.queued k
  refused : tally s'.refused k = tally s.refused k

omit [DecidableEq ι] in
theorem Going.agree {send : LaneSend} (h : s.Going send) (agree : s.Agree s' send.serial) : s'.Going send :=
  ⟨agree.outcomes.trans h.unanswered, agree.queued.trans h.frames, agree.refused.trans h.refusals⟩

omit [DecidableEq ι] in
theorem Ended.agree {outcome : ℕ × Except SendError Unit} (h : s.Ended outcome) (agree : s.Agree s' outcome.1) :
    s'.Ended outcome :=
  ⟨agree.outcomes.trans h.once, agree.queued.trans h.frames, agree.refused.trans_le h.refusals⟩

omit [DecidableEq ι] in
theorem Delivered.owner_serial (h : Delivered s) {i : ι} {send : LaneSend} (here : s.sends i = some send) :
    s.owner send.serial = some i := by
  rw [owner, h.numbered i send here]
  rfl

omit [DecidableEq ι] in
/-- Calls that are not over have numbers of their own. -/
theorem Delivered.serial_ne (h : Delivered s) {i j : ι} {send sendj : LaneSend} (here : s.sends i = some send)
    (at_ : s.sends j = some sendj) (other : j ≠ i) : sendj.serial ≠ send.serial := by
  intro same
  have mine := h.owner_serial here
  rw [← same, h.owner_serial at_] at mine
  cases mine
  exact other rfl

omit [DecidableEq ι] in
theorem owner_congr (calls : s'.calls = s.calls) : s'.owner = s.owner := by
  funext k
  rw [owner, owner, calls]

/-- One call goes on, or ends; the traces of the others stay. -/
theorem Delivered.turn (h : Delivered s) {i : ι} {send : LaneSend} {next : Option LaneSend} (here : s.sends i = some send)
    (sends : s'.sends = Function.update s.sends i next) (calls : s'.calls = s.calls)
    (same : ∀ send', next = some send' → send'.serial = send.serial ∧ send'.lane = send.lane ∧ send'.build = send.build)
    (agree : ∀ k, k ≠ send.serial → s.Agree s' k) (going : ∀ send', next = some send' → s'.Going send')
    (kept : s.outcomes ⊆ s'.outcomes)
    (ended : ∀ outcome ∈ s'.outcomes, outcome ∈ s.outcomes ∨ s'.Ended outcome)
    (over_ : next = none → ∃ outcome ∈ s'.outcomes, outcome.1 = send.serial)
    (carried : ∀ entry ∈ s'.queued, s.Carries entry)
    (ordered : s'.queued.Pairwise fun a b => s.owner a.1 = s.owner b.1 → a.1 < b.1) : Delivered s' := by
  have others : ∀ j sendj, j ≠ i → s'.sends j = some sendj → s.sends j = some sendj :=
    fun j sendj other at_ => (sends_other sends other).symm.trans at_
  have mine : ∀ {send'}, s'.sends i = some send' → next = some send' := fun at_ => (sends_self sends).symm.trans at_
  constructor
  · intro j sendj at_
    rw [calls]
    by_cases other : j = i
    · subst other
      obtain ⟨serial, lane, build⟩ := same sendj (mine at_)
      rw [serial, lane, build]
      exact h.numbered j send here
    · exact h.numbered j sendj (others j sendj other at_)
  · intro j sendj at_
    rw [owner_congr calls]
    by_cases other : j = i
    · subst other
      rw [(same sendj (mine at_)).1]
      exact h.latest j send here
    · exact h.latest j sendj (others j sendj other at_)
  · intro j sendj at_
    by_cases other : j = i
    · subst other
      exact going sendj (mine at_)
    · have before := others j sendj other at_
      exact (h.going j sendj before).agree (agree _ (h.serial_ne here before other))
  · intro outcome mem
    rcases ended outcome mem with earlier | now
    · exact (h.ended outcome earlier).agree (agree _ (ne_of_tally_eq_zero (h.going i send here).unanswered earlier))
    · exact now
  · intro k old
    rw [calls] at old
    rcases h.known k old with ⟨j, sendj, at_, number⟩ | ⟨outcome, mem, number⟩
    · by_cases other : j = i
      · subst other
        rw [here] at at_
        cases at_
        cases next with
        | none =>
          obtain ⟨outcome, mem, serial⟩ := over_ rfl
          exact .inr ⟨outcome, mem, serial.trans number⟩
        | some send' => exact .inl ⟨j, send', sends_self sends, (same send' rfl).1.trans number⟩
      · exact .inl ⟨j, sendj, (sends_other sends other).trans at_, number⟩
    · exact .inr ⟨outcome, kept mem, number⟩
  · intro k new
    rw [calls] at new
    have other : k ≠ send.serial := by
      intro same
      have known := h.numbered i send here
      rw [← same, List.getElem?_eq_none new] at known
      cases known
    obtain ⟨unanswered, none_, unrefused⟩ := h.fresh k new
    obtain ⟨outcomes, queued, refused⟩ := agree k other
    exact ⟨outcomes.trans unanswered, queued.trans none_, refused.trans unrefused⟩
  · intro entry mem
    rw [Carries, calls]
    exact carried entry mem
  · rw [owner_congr calls]
    exact ordered

/-- A call goes on, with no frame taken. -/
theorem Delivered.goOn (h : Delivered s) {i : ι} {send send' : LaneSend} (here : s.sends i = some send)
    (sends : s'.sends = Function.update s.sends i (some send')) (calls : s'.calls = s.calls) (queued : s'.queued = s.queued)
    (outcomes : s'.outcomes = s.outcomes) (same : send'.serial = send.serial ∧ send'.lane = send.lane ∧ send'.build = send.build)
    (elsewhere : ∀ k, k ≠ send.serial → tally s'.refused k = tally s.refused k)
    (untaken : send.phase.taken = false ∧ send'.phase.taken = false)
    (refusals : tally s'.refused send.serial = if send'.stale.isSome then 1 else 0) : Delivered s' := by
  have going := h.going i send here
  refine h.turn here sends calls (fun _ at_ => ?_)
    (fun k other => ⟨congrArg (tally · k) outcomes, congrArg (tally · k) queued, elsewhere k other⟩) (fun _ at_ => ?_)
    (outcomes ▸ List.Subset.refl _) (fun outcome mem => .inl (outcomes ▸ mem)) (fun gone => by cases gone)
    (queued ▸ h.carried) (queued ▸ h.ordered)
  · cases at_
    exact same
  · cases at_
    obtain ⟨serial, -⟩ := same
    refine ⟨?_, ?_, ?_⟩
    · rw [outcomes, serial]
      exact going.unanswered
    · rw [queued, serial, going.frames, untaken.1, untaken.2]
    · rw [serial]
      exact refusals

/-- A call ends. -/
theorem Delivered.finish (h : Delivered s) {i : ι} {send : LaneSend} (here : s.sends i = some send)
    (sends : s'.sends = Function.update s.sends i none) (calls : s'.calls = s.calls) (queued : s'.queued = s.queued)
    {outcome : Except SendError Unit} (outcomes : s'.outcomes = s.outcomes ++ [(send.serial, outcome)])
    (elsewhere : ∀ k, k ≠ send.serial → tally s'.refused k = tally s.refused k)
    (frames : send.phase.taken = outcome.isOk)
    (refusals : tally s'.refused send.serial ≤ if outcome.isOk then 1 else 2) : Delivered s' := by
  have going := h.going i send here
  refine h.turn here sends calls (fun _ at_ => by cases at_)
    (fun k other => ⟨outcomes ▸ tally_push_of_ne other, congrArg (tally · k) queued, elsewhere k other⟩)
    (fun _ at_ => by cases at_) (outcomes ▸ List.subset_append_left ..) (fun over_ mem => ?_)
    (fun _ => ⟨_, outcomes ▸ List.mem_append_right _ (List.mem_singleton_self _), rfl⟩) (queued ▸ h.carried) (queued ▸ h.ordered)
  rw [outcomes] at mem
  rcases List.mem_append.mp mem with earlier | last
  · exact .inl earlier
  · rw [List.mem_singleton.mp last]
    refine .inr ⟨?_, ?_, refusals⟩
    · rw [outcomes]
      exact (tally_push_self _).trans (by rw [going.unanswered])
    · rw [queued, ← frames]
      exact going.frames

/-- An actor takes the frame of a call. -/
theorem Delivered.take (h : Delivered s) {i : ι} {send send' : LaneSend} (here : s.sends i = some send)
    (sends : s'.sends = Function.update s.sends i (some send')) (calls : s'.calls = s.calls)
    {frame : SessionFrame} (queued : s'.queued = s.queued ++ [(send.serial, send.lane, frame)])
    (outcomes : s'.outcomes = s.outcomes) (refused : s'.refused = s.refused)
    (same : send'.serial = send.serial ∧ send'.lane = send.lane ∧ send'.build = send.build) (stale : send'.stale = send.stale)
    (frames : send.frames frame) (untaken : send.phase.taken = false) (taken : send'.phase.taken = true) :
    Delivered s' := by
  have going := h.going i send here
  have none_ : tally s.queued send.serial = 0 := by
    rw [going.frames, untaken]
    rfl
  refine h.turn here sends calls (fun _ at_ => ?_)
    (fun k other => ⟨congrArg (tally · k) outcomes, queued ▸ tally_push_of_ne other, congrArg (tally · k) refused⟩)
    (fun _ at_ => ?_) (outcomes ▸ List.Subset.refl _) (fun outcome mem => .inl (outcomes ▸ mem)) (fun gone => by cases gone)
    (fun entry mem => ?_) ?_
  · cases at_
    exact same
  · cases at_
    obtain ⟨serial, -⟩ := same
    refine ⟨?_, ?_, ?_⟩
    · rw [outcomes, serial]
      exact going.unanswered
    · rw [queued, serial, taken]
      exact (tally_push_self (send.serial, send.lane, frame)).trans (by rw [none_]; rfl)
    · rw [refused, serial, stale]
      exact going.refusals
  · rw [queued] at mem
    rcases List.mem_append.mp mem with earlier | last
    · exact h.carried entry earlier
    · rw [List.mem_singleton.mp last]
      obtain ⟨f, built, whole⟩ := frames
      exact ⟨i, send.build, f, h.numbered i send here, built, whole⟩
  · rw [queued, List.pairwise_append]
    refine ⟨h.ordered, List.pairwise_singleton .., fun earlier mem last mem_ mine => ?_⟩
    rw [List.mem_singleton.mp mem_] at mine ⊢
    have before := h.latest i send here earlier.1 (mine.trans (h.owner_serial here))
    exact lt_of_le_of_ne before (ne_of_tally_eq_zero none_ mem)

/-- A task makes a call. -/
theorem Delivered.call (h : Delivered s) {i : ι} {lane : Lane} {build : FrameBuilder} (free : s.sends i = none)
    (sends : s'.sends = Function.update s.sends i (some ⟨s.calls.length, lane, build, none, .locking⟩))
    (calls : s'.calls = s.calls ++ [(i, lane, build)]) (queued : s'.queued = s.queued) (outcomes : s'.outcomes = s.outcomes)
    (refused : s'.refused = s.refused) : Delivered s' := by
  have agree : ∀ k, s.Agree s' k := fun k =>
    ⟨congrArg (tally · k) outcomes, congrArg (tally · k) queued, congrArg (tally · k) refused⟩
  have kept : ∀ k, k < s.calls.length → s'.calls[k]? = s.calls[k]? := fun k old => by
    rw [calls, List.getElem?_append_left old]
  have last : s'.calls[s.calls.length]? = some (i, lane, build) := by
    rw [calls, List.getElem?_concat_length]
  have old_ : ∀ {k entry}, s.calls[k]? = some entry → k < s.calls.length := fun {k entry} at_ => by
    by_contra new
    rw [List.getElem?_eq_none (not_lt.mp new)] at at_
    cases at_
  obtain ⟨unanswered, none_, unrefused⟩ := h.fresh s.calls.length le_rfl
  constructor
  · intro j sendj at_
    by_cases other : j = i
    · subst other
      rw [sends_self sends] at at_
      cases at_
      exact last
    · have before := h.numbered j sendj ((sends_other sends other).symm.trans at_)
      exact (kept _ (old_ before)).trans before
  · intro j sendj at_ k mine
    by_cases other : j = i
    · subst other
      rw [sends_self sends] at at_
      cases at_
      have within : k < s'.calls.length := by
        by_contra new
        rw [owner, List.getElem?_eq_none (not_lt.mp new)] at mine
        cases mine
      rw [calls, List.length_append, List.length_singleton] at within
      exact Nat.le_of_lt_succ within
    · have before := (sends_other sends other).symm.trans at_
      have old : k < s.calls.length ∨ k = s.calls.length ∨ s.calls.length < k := by omega
      rcases old with old | rfl | new
      · rw [owner, kept k old] at mine
        exact h.latest j sendj before k mine
      · rw [owner, last] at mine
        cases mine
        exact absurd rfl other
      · rw [owner, calls, List.getElem?_eq_none (by rw [List.length_append, List.length_singleton]; omega)] at mine
        cases mine
  · intro j sendj at_
    by_cases other : j = i
    · subst other
      rw [sends_self sends] at at_
      cases at_
      exact ⟨(agree _).outcomes.trans unanswered, (agree _).queued.trans none_, (agree _).refused.trans unrefused⟩
    · exact (h.going j sendj ((sends_other sends other).symm.trans at_)).agree (agree _)
  · intro outcome mem
    rw [outcomes] at mem
    exact (h.ended outcome mem).agree (agree _)
  · intro k old
    rw [calls, List.length_append, List.length_singleton] at old
    rw [outcomes]
    rcases Nat.lt_succ_iff_lt_or_eq.mp old with before | rfl
    · rcases h.known k before with ⟨j, sendj, at_, number⟩ | over_
      · have other : j ≠ i := fun same => by
          rw [same, free] at at_
          cases at_
        exact .inl ⟨j, sendj, (sends_other sends other).trans at_, number⟩
      · exact .inr over_
    · exact .inl ⟨i, _, sends_self sends, rfl⟩
  · intro k new
    rw [calls, List.length_append, List.length_singleton] at new
    obtain ⟨a, q, r⟩ := h.fresh k (Nat.le_of_succ_le new)
    exact ⟨(agree k).outcomes.trans a, (agree k).queued.trans q, (agree k).refused.trans r⟩
  · intro entry mem
    rw [queued] at mem
    obtain ⟨j, build, f, at_, built, whole⟩ := h.carried entry mem
    exact ⟨j, build, f, (kept _ (old_ at_)).trans at_, built, whole⟩
  · rw [queued]
    refine h.ordered.imp_of_mem fun {a b} mem mem_ before mine => ?_
    obtain ⟨_, _, _, at_, -⟩ := h.carried a mem
    obtain ⟨_, _, _, at__, -⟩ := h.carried b mem_
    rw [owner, owner, kept _ (old_ at_), kept _ (old_ at__)] at mine
    exact before mine

omit [DecidableEq ι] in
theorem Delivered.still (h : Delivered s) (sends : s'.sends = s.sends) (calls : s'.calls = s.calls)
    (queued : s'.queued = s.queued) (outcomes : s'.outcomes = s.outcomes) (refused : s'.refused = s.refused) : Delivered s' := by
  obtain ⟨manager, running, commands, lanes, lock, sends', now, calls', opened, replaced, givenUp, closed, refused',
    queued', outcomes'⟩ := s'
  dsimp only at sends calls queued outcomes refused
  subst sends calls queued outcomes refused
  exact ⟨h.numbered, h.latest, fun i send here => ⟨(h.going i send here).unanswered, (h.going i send here).frames,
    (h.going i send here).refusals⟩, fun outcome mem => ⟨(h.ended outcome mem).once, (h.ended outcome mem).frames,
    (h.ended outcome mem).refusals⟩, h.known, h.fresh, h.carried, h.ordered⟩

/-- With nothing refused since. -/
theorem Delivered.walk (h : Delivered s) {i : ι} {send send' : LaneSend} (here : s.sends i = some send)
    (sends : s'.sends = Function.update s.sends i (some send')) (calls : s'.calls = s.calls) (queued : s'.queued = s.queued)
    (outcomes : s'.outcomes = s.outcomes) (refused : s'.refused = s.refused)
    (same : send'.serial = send.serial ∧ send'.lane = send.lane ∧ send'.build = send.build) (stale : send'.stale = send.stale)
    (untaken : send.phase.taken = false ∧ send'.phase.taken = false) : Delivered s' := by
  refine h.goOn here sends calls queued outcomes same (fun k other => congrArg (tally · k) refused) untaken ?_
  rw [refused, stale]
  exact (h.going i send here).refusals

/-- A call fails with nothing refused since. -/
theorem Delivered.fail (h : Delivered s) {i : ι} {send : LaneSend} (here : s.sends i = some send)
    (sends : s'.sends = Function.update s.sends i none) (calls : s'.calls = s.calls) (queued : s'.queued = s.queued)
    {error : SendError} (outcomes : s'.outcomes = s.outcomes ++ [(send.serial, .error error)])
    (refused : s'.refused = s.refused) (untaken : send.phase.taken = false) : Delivered s' := by
  refine h.finish here sends calls queued outcomes (fun k other => congrArg (tally · k) refused) untaken ?_
  have refusals : tally s'.refused send.serial = if send.stale.isSome then 1 else 0 := refused ▸ (h.going i send here).refusals
  rw [refusals]
  cases send.stale with
  | none => exact Nat.zero_le _
  | some id => exact Nat.le_succ 1

theorem Delivered.move (h : Delivered s) (moved : Move s s') : Delivered s' := by
  cases moved with
  | quiet manager now ahead => exact h.still rfl rfl rfl rfl rfl
  | stopped => exact h.still rfl rfl rfl rfl rfl
  | closed channel commands next manager ahead => exact h.still rfl rfl rfl rfl rfl
  | called i lane build free =>
    rw [LaneSession.call, free]
    exact h.call free rfl rfl rfl rfl rfl
  | walked i send phase commands here idle holding pending untaken channel commands_ =>
    exact h.walk here rfl rfl rfl rfl rfl ⟨rfl, rfl, rfl⟩ rfl untaken
  | locked i send here phase open_ vacant =>
    exact h.walk here rfl rfl rfl rfl rfl ⟨rfl, rfl, rfl⟩ rfl ⟨by rw [phase]; rfl, rfl⟩
  | replaced i send live here phase open_ held stale =>
    rw [push]
    split
    · exact h.walk here rfl rfl rfl rfl rfl ⟨rfl, rfl, rfl⟩ rfl ⟨by rw [phase]; rfl, rfl⟩
    · exact h.walk here rfl rfl rfl rfl rfl ⟨rfl, rfl, rfl⟩ rfl ⟨by rw [phase]; rfl, rfl⟩
  | cached i send channel here idle holding pending =>
    exact h.walk here rfl rfl rfl rfl rfl ⟨rfl, rfl, rfl⟩ rfl ⟨SendPhase.untaken_of_holding holding, rfl⟩
  | failed i send text here idle holding pending =>
    exact h.fail here rfl rfl rfl rfl rfl (SendPhase.untaken_of_holding holding)
  | gaveUp i send channel text here idle holding pending =>
    exact h.fail here rfl rfl rfl rfl rfl (SendPhase.untaken_of_holding holding)
  | unencoded i send channel text here phase => exact h.fail here rfl rfl rfl rfl rfl (by rw [phase]; rfl)
  | retried i send channel error here idle holding at_ untaken =>
    have going := h.going i send here
    have more : tally (s.refused ++ [(send.serial, channel)]) send.serial = tally s.refused send.serial + 1 :=
      tally_push_self (send.serial, channel)
    rw [retry]
    split
    next fresh =>
      refine h.goOn here rfl rfl rfl rfl ⟨rfl, rfl, rfl⟩ (fun k other => tally_push_of_ne other) ⟨untaken, rfl⟩ ?_
      refine more.trans ?_
      rw [going.refusals, fresh]
      rfl
    next again =>
      refine h.finish here rfl rfl rfl rfl (fun k other => tally_push_of_ne other) untaken (more.trans_le ?_)
      rw [going.refusals, again]
      exact le_rfl
  | sent i send channel here phase =>
    have going := h.going i send here
    refine h.finish here rfl rfl rfl rfl (fun k other => rfl) (by rw [phase]; rfl) (going.refusals.trans_le ?_)
    cases send.stale with
    | none => exact Nat.zero_le _
    | some id => exact le_rfl
  | answered i send phase command commands next reply here manager ahead holding pending channel untaken quiet =>
    exact h.walk here rfl rfl rfl rfl rfl ⟨rfl, rfl, rfl⟩ rfl untaken
  | opened i send id command commands next reply here phase manager ahead fresh past =>
    exact h.walk here rfl rfl rfl rfl rfl ⟨rfl, rfl, rfl⟩ rfl ⟨by rw [phase]; rfl, rfl⟩
  | took i send frame command commands next reply here phase frames =>
    exact h.take here rfl rfl rfl rfl rfl ⟨rfl, rfl, rfl⟩ rfl frames (by rw [phase]; rfl) rfl

theorem delivered_run (hmac : Hmac) {manager : ChannelManager Link} (aligned : manager.ids.Aligned)
    (steps : List (LaneStep ι Link)) : Accounted (run hmac manager steps) ∧ Delivered (run hmac manager steps) := by
  refine TransitionRun.invariant (I := fun s => Accounted s ∧ Delivered s) ?_ (fun s x h => ?_) steps
  · refine ⟨accounted_run hmac aligned [], ?_⟩
    exact ⟨fun i send here => (by cases here), fun i send here => (by cases here), fun i send here => (by cases here),
      fun outcome mem => (by cases mem), fun k old => absurd old (Nat.not_lt_zero k), fun k new => ⟨rfl, rfl, rfl⟩,
      fun entry mem => (by cases mem), .nil⟩
  · exact ⟨h.1.step hmac x, h.2.move (step_move hmac h.1.orderly x)⟩

/-- Whatever the session's tasks send and whatever becomes of the channels: a call ends once, if at all; its frame is
refused twice at most and taken once at most, exactly once if the call succeeds and never if it fails; a frame that is
taken is the one the call built for that channel, one opened for the call's own lane; and the frames of a task are
taken in the order it sent them. -/
theorem lane_sends_once (hmac : Hmac) (crypto : SessionCrypto) (version : Version) (role : SessionRole)
    (negotiated : ChannelType → Bool) (limit : ℕ) (streamTypes : List ChannelType) (steps : List (LaneStep ι Link)) :
    let s := run hmac (.new crypto version role negotiated limit streamTypes) steps
    (∀ k, tally s.outcomes k ≤ 1 ∧ tally s.queued k ≤ 1 ∧ tally s.refused k ≤ 2) ∧
    (∀ k, (k, .ok ()) ∈ s.outcomes → tally s.queued k = 1) ∧
    (∀ k error, (k, .error error) ∈ s.outcomes → tally s.queued k = 0) ∧
    (∀ k lane frame, (k, lane, frame) ∈ s.queued → (lane, frame.channel) ∈ s.opened ∧
      ∃ i build f, s.calls[k]? = some (i, lane, build) ∧ build frame.channel = .ok f ∧
        frame = { f with channel := frame.channel }) ∧
    s.queued.Pairwise fun a b => s.owner a.1 = s.owner b.1 → a.1 < b.1 := by
  intro s
  have aligned : (ChannelManager.new crypto version role negotiated limit streamTypes : ChannelManager Link).ids.Aligned :=
    ChannelIdAllocator.new_aligned role
  obtain ⟨accounted, h⟩ : Accounted s ∧ Delivered s := delivered_run hmac aligned steps
  refine ⟨fun k => ?_, fun k mem => ?_, fun k error mem => ?_, fun k lane frame mem => ?_, h.ordered⟩
  · by_cases old : k < s.calls.length
    · rcases h.known k old with ⟨i, send, here, rfl⟩ | ⟨outcome, mem, rfl⟩
      · obtain ⟨unanswered, frames, refusals⟩ := h.going i send here
        refine ⟨by omega, ?_, ?_⟩
        · rw [frames]
          split <;> decide
        · rw [refusals]
          split <;> decide
      · obtain ⟨once, frames, refusals⟩ := h.ended outcome mem
        refine ⟨once.le, ?_, refusals.trans ?_⟩
        · rw [frames]
          split <;> decide
        · split <;> decide
    · obtain ⟨unanswered, none_, unrefused⟩ := h.fresh k (not_lt.mp old)
      omega
  · exact (h.ended _ mem).frames
  · exact (h.ended _ mem).frames
  · exact ⟨accounted.founded.carried _ mem, h.carried _ mem⟩

theorem reopening_sent :
    let s := run zeroHmac (testManager 4 []) reopening
    s.refused = [(1, 2)] ∧ tally s.queued 1 = 1 ∧ (.syncAsk, 4) ∈ s.opened ∧ tally s.outcomes 1 ≤ 1 := by
  have whole := lane_sends_once zeroHmac zeroCrypto ⟨1, 0⟩ .responder (fun _ => true) 4 [] reopening
  obtain ⟨most, sent, -, carried, -⟩ := whole
  have mine := carried 1 .syncAsk ⟨4, 3, .none, [47]⟩ (by decide +kernel)
  exact ⟨by decide +kernel, sent 1 (by decide +kernel), mine.1, (most 1).1⟩

end LaneSession
end PeerBeam.Session
