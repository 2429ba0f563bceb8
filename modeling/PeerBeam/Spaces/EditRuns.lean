import Mathlib.Data.Fintype.Basic
import PeerBeam.Spaces.Edits

/-! Runs of edits in any order of their calls: what keeps every edit standing until another undoes it. -/
namespace PeerBeam.Spaces
open Program (ret fail)

section
variable {ι : Type} [DecidableEq ι] (edits : ι → Edit)

def start (toLowercase : String → String) (rows : Rows) : Edits ι :=
  .start rows fun i => (edits i).program toLowercase

def written (w : Edits ι) (t : Turn ι SpaceError) : Option Space :=
  match t.failure, w.next t.thread with
  | none, some (.put s) => some s
  | _, _ => none

/-- A write finds what it takes the stored record for, and never the id of a space that was deleted. -/
def Undisturbed (w : Edits ι) (t : Turn ι SpaceError) : Prop :=
  ∀ s ∈ written w t, (edits t.thread).Fits (w.own t.thread) w.state[s.id]? ∧
    ∀ j, returned w j = true → (edits j).deletes ≠ some s.id

instance [Fintype ι] (w : Edits ι) : DecidablePred (Undisturbed edits w) := fun t =>
  inferInstanceAs (Decidable (∀ s ∈ written w t, _ ∧ ∀ _, _))

/-- No space names a device twice, and every edit that was made stands, or another undid it afterwards. -/
def Kept (w : Edits ι) : Prop :=
  (∀ (id : String) (s : Space), w.state[id]? = some (.ok s) → s.members.Nodup) ∧
    ∀ i, returned w i = true → (edits i).Stands w.state ∨
      ∃ j, returned w j = true ∧ w.After i j ∧ (edits j).Undoes (edits i)

def Steady (w : Edits ι) : Prop :=
  w.Keeps (fun _ _ => Honest) (fun i => (edits i).Due) (fun _ => Edit.Ends) fun _ _ own => own.any effective = false

structure Inv (w : Edits ι) : Prop where
  steady : Steady edits w
  sound : Sound w.state
  kept : Kept edits w

variable {edits} {w : Edits ι} {t : Turn ι SpaceError}

theorem Steady.returned_eq (steady : Steady edits w) (i : ι) : returned w i = (w.own i).any effective := by
  have here := steady i
  rw [returned]
  cases at' : w.threads i with
  | ret a =>
    rw [at'] at here
    exact here.symm
  | fail e =>
    rw [at'] at here
    exact here.symm
  | call c next =>
    rw [at'] at here
    obtain ⟨due, -⟩ := here
    cases c with
    | get => exact due.symm
    | list => exact due.symm
    | put => exact due.1.symm
    | delete => exact due.1.symm

omit [DecidableEq ι] in
theorem returned_ended {i : ι} (done : returned w i = true) : ∀ c next, w.threads i ≠ .call c next := by
  intro c next turn
  rw [returned, turn] at done
  cases done

/-- A call without an effect leaves what is stored. -/
theorem reply_ineffective {rows : Rows} {failure : Option SpaceError} {c : Call}
    (none : effective ⟨c, (Pool.reply Rows.exec rows failure c).1⟩ = false) :
    (Pool.reply Rows.exec rows failure c).2 = rows := by
  cases failure with
  | some e => rfl
  | none =>
    cases c with
    | get => rfl
    | list => rfl
    | put s => cases none
    | delete id =>
      refine Std.ExtTreeMap.ext_getElem? fun other => ?_
      have absent : rows[id]?.isSome = false := none
      show (rows.erase id)[other]? = _
      rw [SortedMap.get_erase]
      split
      next same =>
        subst same
        exact (Option.not_isSome_iff_eq_none.mp (Bool.eq_false_iff.mp absent)).symm
      next => rfl

/-- What is heard of the store is as records are stored. -/
theorem Sound.honest {rows : Rows} (sound : Sound rows) (failure : Option SpaceError) (c : Call) :
    Honest c (Pool.reply Rows.exec rows failure c).1 := by
  cases failure with
  | some e =>
    cases c <;> trivial
  | none =>
    cases c with
    | get id =>
      show Honest (.get id) (.ok rows[id]?)
      cases here : rows[id]? with
      | none => trivial
      | some row =>
        cases row with
        | error e => trivial
        | ok s => exact sound id s here
    | _ => trivial

theorem Sound.insert {rows : Rows} (sound : Sound rows) {s : Space} (nodup : s.members.Nodup) :
    Sound (rows.insert s.id (.ok s)) := by
  intro id s' there
  rw [SortedMap.get_insert] at there
  split at there
  next same =>
    cases there
    exact ⟨same, nodup⟩
  next => exact sound id s' there

theorem Sound.erase {rows : Rows} (sound : Sound rows) (id : String) : Sound (rows.erase id) := by
  intro other s there
  rw [SortedMap.get_erase] at there
  split at there
  · cases there
  · exact sound other s there

/-- A turn changes nobody else's standing. -/
theorem returned_step (i : ι) (apart : t.thread ≠ i) :
    returned (w.step Rows.exec t) i = returned w i := by
  rcases Pool.step_cases Rows.exec w t with ⟨c, next, turn, after⟩ | ⟨-, after⟩
  · have still : (w.step Rows.exec t).threads i = w.threads i := by
      rw [after]
      exact Function.update_of_ne (Ne.symm apart) _ _
    rw [returned, returned, still]
  · rw [after]

/-- Nobody who has returned takes another turn. -/
theorem returned_push {i : ι} (done : returned w i = true) : returned (w.step Rows.exec t) i = true := by
  by_cases own : t.thread = i
  · subst own
    rcases Pool.step_cases Rows.exec w t with ⟨c, next, turn, -⟩ | ⟨-, after⟩
    · exact absurd turn (returned_ended done c next)
    · rwa [after]
  · rwa [returned_step i own]

theorem Steady.step (steady : Steady edits w) (sound : Sound w.state) (t : Turn ι SpaceError) :
    Steady edits (w.step Rows.exec t) :=
  Pool.Keeps.step steady t fun c _ => sound.honest t.failure c

/-- A turn with no effect, as a call that makes no change. -/
theorem Inv.quiet (inv : Inv edits w) {c : Call}
    (none : effective ⟨c, (Pool.reply Rows.exec w.state t.failure c).1⟩ = false)
    (own : (w.step Rows.exec t).own t.thread =
      w.own t.thread ++ [⟨c, (Pool.reply Rows.exec w.state t.failure c).1⟩])
    (state : (w.step Rows.exec t).state = (Pool.reply Rows.exec w.state t.failure c).2) :
    Inv edits (w.step Rows.exec t) := by
  have steady := inv.steady.step inv.sound t
  rw [reply_ineffective none] at state
  refine ⟨steady, state ▸ inv.sound, state ▸ inv.kept.1, fun i done => ?_⟩
  have before : returned w i = true := by
    by_cases mine : t.thread = i
    · subst mine
      rw [steady.returned_eq, own, List.any_append, ← inv.steady.returned_eq] at done
      simpa [none] using done
    · rwa [← returned_step i mine]
  rcases inv.kept.2 i before with stands | ⟨j, done', later, undone⟩
  · exact .inl (state ▸ stands)
  · exact .inr ⟨j, returned_push done', later.push (returned_ended before) t, undone⟩

/-- A turn that changes what is stored ends its edit; others stand on, or are undone by it. -/
theorem Inv.effect (inv : Inv edits w) {c : Call} (turn : w.next t.thread = some c)
    (some : effective ⟨c, (Pool.reply Rows.exec w.state t.failure c).1⟩ = true)
    (own : (w.step Rows.exec t).own t.thread =
      w.own t.thread ++ [⟨c, (Pool.reply Rows.exec w.state t.failure c).1⟩])
    (sound : Sound (w.step Rows.exec t).state) (mine : (edits t.thread).Stands (w.step Rows.exec t).state)
    (others : ∀ i, returned w i = true → (edits i).Stands w.state →
      (edits i).Stands (w.step Rows.exec t).state ∨ (edits t.thread).Undoes (edits i)) :
    Inv edits (w.step Rows.exec t) := by
  have steady := inv.steady.step inv.sound t
  have ended : returned (w.step Rows.exec t) t.thread = true := by
    rw [steady.returned_eq, own, List.any_append, List.any_cons, some, Bool.true_or, Bool.or_true]
  refine ⟨steady, sound, fun id s there => (sound id s there).2, fun i done => ?_⟩
  by_cases same : t.thread = i
  · exact .inl (same ▸ mine)
  · have before : returned w i = true := by rwa [← returned_step i same]
    rcases inv.kept.2 i before with stands | ⟨j, done', later, undone⟩
    · rcases others i before stands with stands | undone
      · exact .inl stands
      · exact .inr ⟨t.thread, ended, Pool.after_turn (returned_ended before) turn, undone⟩
    · exact .inr ⟨j, returned_push done', later.push (returned_ended before) t, undone⟩

theorem Inv.step (inv : Inv edits w) (quiet : Undisturbed edits w t) : Inv edits (w.step Rows.exec t) := by
  rcases Pool.step_cases Rows.exec w t with ⟨c, next, here, after⟩ | ⟨-, after⟩
  rotate_left
  · rw [after]
    exact inv
  have turn : w.next t.thread = some c := Pool.next_eq_some.mpr ⟨next, here⟩
  have own : (w.step Rows.exec t).own t.thread =
      w.own t.thread ++ [⟨c, (Pool.reply Rows.exec w.state t.failure c).1⟩] := by
    rw [after, Pool.own_push, if_pos rfl]
  have state : (w.step Rows.exec t).state = (Pool.reply Rows.exec w.state t.failure c).2 := by rw [after]
  cases some : effective ⟨c, (Pool.reply Rows.exec w.state t.failure c).1⟩ with
  | false => exact inv.quiet some own state
  | true =>
    have due := Pool.Keeps.next inv.steady turn
    cases failure : t.failure with
    | some e =>
      rw [failure] at some
      cases c <;> cases some
    | none =>
      rw [failure] at state
      cases c with
      | get => rw [failure] at some; cases some
      | list => rw [failure] at some; cases some
      | put s =>
        obtain ⟨-, due, nodup⟩ := due
        have put : written w t = .some s := by rw [written, failure, turn]
        obtain ⟨fits, alive⟩ := quiet s put
        refine inv.effect turn some own ?_ ?_ ?_ <;> rw [state]
        · exact inv.sound.insert nodup
        · exact Edit.stands_put due
        · exact fun i before stands => stands.put due fits (alive i before)
      | delete id =>
        obtain ⟨-, due⟩ := due
        refine inv.effect turn some own ?_ ?_ ?_ <;> rw [state]
        · exact inv.sound.erase id
        · rw [due, Edit.Stands]
          exact (SortedMap.get_erase _ id id).trans (if_pos rfl)
        · rw [due]
          exact fun i _ stands => stands.erase id

theorem Inv.start (toLowercase : String → String) {rows : Rows} (sound : Sound rows) :
    Inv edits (Spaces.start edits toLowercase rows) := by
  have steady : Steady edits (Spaces.start edits toLowercase rows) := fun i =>
    Edit.keeps_program toLowercase (edits i)
  refine ⟨steady, sound, fun id s there => (sound id s there).2, fun i done => ?_⟩
  rw [steady.returned_eq] at done
  cases done

/-- Where every write finds what its call takes the record for, no edit is lost, and none is undone but by
a later one. -/
theorem edits_kept (edits : ι → Edit) (toLowercase : String → String) (rows : Rows) (sound : Sound rows)
    (turns : List (Turn ι SpaceError))
    (ok : TransitionRun.Along (Pool.step Rows.exec) (Undisturbed edits)
      (Spaces.start edits toLowercase rows) turns) :
    Kept edits ((Spaces.start edits toLowercase rows).run Rows.exec turns) := by
  have kept : Inv edits ((Spaces.start edits toLowercase rows).run Rows.exec turns) :=
    ok.invariant (Inv.start toLowercase sound) fun w t inv quiet => inv.step quiet
  exact kept.kept

end

private def work (members : List DeviceId) : Space := ⟨"s1", "Work", members⟩

private def holdingWork : Rows := (∅ : Rows).insert "s1" (.ok (work ["bob"]))

private def changeMembers (removes : Bool) : Edit :=
  if removes then .removeMember "s1" "bob" else .addMember "s1" "carol" (.ok true)

private def taking (sides : List Bool) : List (Turn Bool SpaceError) := sides.map (⟨·, none⟩)

private theorem holdingWork_sound : Sound holdingWork := by
  intro id s there
  rw [holdingWork, SortedMap.get_insert] at there
  split at there
  next same =>
    cases there
    exact ⟨same, List.nodup_singleton _⟩
  next => cases there

/-- Both changes are made, and the removed member is there again. -/
theorem removed_member_returns :
    let w := (start changeMembers id holdingWork).run Rows.exec (taking [false, true, true, false])
    returned w false = true ∧ returned w true = true ∧
      w.state["s1"]? = some (.ok (work ["bob", "carol"])) ∧ ¬ Kept changeMembers w := by
  have stored : ((start changeMembers id holdingWork).run Rows.exec
      (taking [false, true, true, false])).state["s1"]? = some (.ok (work ["bob", "carol"])) := by
    decide
  refine ⟨rfl, rfl, stored, fun kept => ?_⟩
  rcases kept.2 true rfl with gone | ⟨j, -, -, undone⟩
  · exact gone _ stored List.mem_cons_self
  · obtain ⟨lookup, same⟩ := undone
    cases j with
    | false => exact absurd (Edit.addMember.inj same).2.1 (by decide)
    | true => cases same

/-- The theorem where the second waits for the first. -/
theorem edits_in_turn_kept :
    Kept changeMembers ((start changeMembers id holdingWork).run Rows.exec
      (taking [false, false, true, true])) :=
  edits_kept changeMembers id holdingWork holdingWork_sound _ (by decide)

end PeerBeam.Spaces
