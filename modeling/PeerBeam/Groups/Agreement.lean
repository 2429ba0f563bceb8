import PeerBeam.Groups.Membership
import PeerBeam.Groups.Network

/-! Agreement of the members of a group. Rosters are copied when an invitation is sent and mended
by the announcements of those who come and go, so agreement depends on the copy being current
when it is adopted. -/
namespace PeerBeam.Groups

def Keyed (rows : Rows) : Prop := ∀ (id : String) (g : Group), rows[id]? = some g → g.id = id

theorem keyed_write {rows : Rows} (keyed : Keyed rows) (e : Effect) : Keyed (e.write rows) := by
  have put (g : Group) : Keyed (rows.insert g.id g) := by
    intro id h found
    rw [SortedMap.get_insert] at found
    split at found
    · cases found
      assumption
    · exact keyed id h found
  cases e with
  | created g => exact put g
  | adopted members g => exact put g
  | added d g => exact put g
  | removed d g => exact put g
  | renamed g => exact put g
  | forgot gone =>
    intro id g found
    rw [Effect.write, SortedMap.get_erase] at found
    split at found
    · cases found
    · exact keyed id g found

section Rows
variable {toLowercase : String → String} {me : DeviceId} {rows : Rows}

theorem keyed_alone (keyed : Keyed rows) (call : Call) : Keyed (alone toLowercase me rows call) := by
  refine TransitionRun.invariant (I := fun w : World => Keyed w.rows) keyed ?_ _
  intro w event keyed
  rw [step_rows]
  cases w.effect toLowercase me event with
  | none => exact keyed
  | some e => exact keyed_write keyed e

/-- Whether the announcement of a device that joins is taken up by those who hold the group. -/
def Takes (rows : Rows) (group : String) (sender : DeviceId) : Prop :=
  ∀ g, rows[group]? = some g →
    validateMember sender = .ok () ∧ (sender ∈ g.members ∨ g.members.length < maxMembers)

/-- A roster that is replaced under its own id. -/
theorem insert_same {group : String} {g : Group} (keyed : Keyed rows) (found : rows[group]? = some g)
    (members : List DeviceId) (id : String) :
    (rows.insert g.id { g with members := members })[id]? =
      if group = id then some { g with members := members } else rows[id]? := by
  rw [← keyed group g found]
  exact SortedMap.get_insert ..

theorem joined_stored (keyed : Keyed rows) (sender : DeviceId) (group id : String) :
    (alone toLowercase me rows (.apply sender (.joined group)))[id]?.isSome = rows[id]?.isSome := by
  rw [alone_joined]
  cases found : rows[group]? with
  | none => rfl
  | some g =>
    rw [Option.elim_some]
    split
    · rw [insert_same keyed found]
      split
      · rename_i same
        rw [← same, found]
        rfl
      · rfl
    · rfl

theorem joined_member (keyed : Keyed rows) {sender : DeviceId} {group id : String} {x : DeviceId} :
    Member (alone toLowercase me rows (.apply sender (.joined group))) id x ↔ Member rows id x ∨
      (group = id ∧ x = sender ∧ ∃ g, rows[group]? = some g ∧
        validateMember sender = .ok () ∧ g.members.length < maxMembers) := by
  rw [alone_joined]
  cases found : rows[group]? with
  | none => simp
  | some g =>
    rw [Option.elim_some]
    by_cases taken : validateMember sender = .ok () ∧ sender ∉ g.members ∧ g.members.length < maxMembers
    · rw [if_pos taken, Member, insert_same keyed found]
      by_cases same : group = id
      · subst same
        simp [Member, found, taken.1, taken.2.2]
      · simp [Member, same]
    · rw [if_neg taken]
      refine ⟨.inl, ?_⟩
      rintro (mem | ⟨rfl, rfl, h, same, valid, room⟩)
      · exact mem
      · cases same
        have already : x ∈ g.members := by_contra fun out => taken ⟨valid, out, room⟩
        exact ⟨g, found, already⟩

theorem joined_taken (keyed : Keyed rows) {sender : DeviceId} {group : String}
    (takes : Takes rows group sender) (stored : rows[group]?.isSome) :
    Member (alone toLowercase me rows (.apply sender (.joined group))) group sender := by
  obtain ⟨g, found⟩ := Option.isSome_iff_exists.mp stored
  obtain ⟨valid, already | room⟩ := takes g found
  · exact (joined_member keyed).mpr (.inl ⟨g, found, already⟩)
  · exact (joined_member keyed).mpr (.inr ⟨rfl, rfl, g, found, valid, room⟩)

theorem left_stored (keyed : Keyed rows) (sender : DeviceId) (group id : String) :
    (alone toLowercase me rows (.apply sender (.left group)))[id]?.isSome = rows[id]?.isSome := by
  rw [alone_left]
  cases found : rows[group]? with
  | none => rfl
  | some g =>
    rw [Option.elim_some, insert_same keyed found]
    split
    · rename_i same
      rw [← same, found]
      rfl
    · rfl

theorem left_member (keyed : Keyed rows) {sender : DeviceId} {group id : String} {x : DeviceId} :
    Member (alone toLowercase me rows (.apply sender (.left group))) id x ↔
      Member rows id x ∧ ¬ (group = id ∧ x = sender) := by
  rw [alone_left]
  cases found : rows[group]? with
  | none =>
    refine ⟨fun mem : Member rows id x => ⟨mem, ?_⟩, And.left⟩
    rintro ⟨rfl, rfl⟩
    obtain ⟨g, stored, -⟩ := mem
    rw [found] at stored
    cases stored
  | some g =>
    rw [Option.elim_some, Member, insert_same keyed found]
    by_cases same : group = id
    · subst same
      simp [Member, found]
    · simp [Member, same]

end Rows

namespace Net

def view (s : Net) (id : String) : View DeviceId where
  holds := {d | (s.rows d)[id]?.isSome}
  names d := {x | Member (s.rows d) id x}
  joining d := {x | ⟨x, d, .joined id⟩ ∈ s.flight}
  leaving d := {x | ⟨x, d, .left id⟩ ∈ s.flight}

/-- A group is touched by what changes its rows or its announcements. -/
theorem consistent_congr {s s' : Net} {id : String} (h : (s.view id).Consistent)
    (rows : ∀ d, (s'.rows d)[id]? = (s.rows d)[id]?)
    (joined : ∀ x d, ⟨x, d, .joined id⟩ ∈ s'.flight ↔ ⟨x, d, .joined id⟩ ∈ s.flight)
    (left : ∀ x d, ⟨x, d, .left id⟩ ∈ s'.flight ↔ ⟨x, d, .left id⟩ ∈ s.flight) :
    (s'.view id).Consistent := by
  have same : s'.view id = s.view id := by simp only [view, Member, rows, joined, left]
  rwa [same]

/-- When the copy of the roster that a device adopts or leaves with is current: the invitation
names exactly those who hold the group, and no announcement to or from the device is under way
that is out of date; one who leaves knows every other holder and is known to them. A group is
created under an id that is in use nowhere, and a device that joins is taken up where it is
announced. -/
def Allowed (s : Net) : Event → Prop
  | .create _ _ minted => (∀ d, ¬ (s.rows d)[minted]?.isSome) ∧
      ∀ x d, ⟨x, d, .joined minted⟩ ∉ s.flight ∧ ⟨x, d, .left minted⟩ ∉ s.flight
  | .invite _ _ _ => True
  | .accept d id => ∀ invite, s.pending d id = some invite →
      (∀ x, x ∈ invite.members ↔ (s.rows x)[id]?.isSome) ∧
      (∀ x, ⟨x, d, .left id⟩ ∈ s.flight → ¬ (s.rows x)[id]?.isSome) ∧
      (∀ x, ⟨x, d, .joined id⟩ ∈ s.flight → (s.rows x)[id]?.isSome) ∧
      ∀ x, (s.rows x)[id]?.isSome → ⟨d, x, .left id⟩ ∉ s.flight
  | .leave d id => ∀ g, (s.rows d)[id]? = some g → ∀ x, x ≠ d → (s.rows x)[id]?.isSome →
      x ∈ g.members ∧ ⟨d, x, .joined id⟩ ∉ s.flight
  | .deliver n => ∀ p group, s.flight[n]? = some p → p.message = .joined group →
      Takes (s.rows p.receiver) group p.sender

/-- Records are stored under their ids, and nobody announces its departure to itself. -/
structure Formed (s : Net) : Prop where
  keyed : ∀ d, Keyed (s.rows d)
  selfless : ∀ d id, ⟨d, d, .left id⟩ ∉ s.flight

section Steps
variable {toLowercase : String → String} {s : Net}

theorem keyed_perform (formed : s.Formed) (d : DeviceId) (call : Call) (e : DeviceId) :
    Keyed (s.perform toLowercase d call e) := by
  rw [perform]
  by_cases same : e = d
  · subst same
    rw [Function.update_self]
    exact keyed_alone (formed.keyed e) call
  · rw [Function.update_of_ne same]
    exact formed.keyed e

/-- The rows of the other devices, and those of other groups, are not touched by a call. -/
theorem perform_get {d e : DeviceId} {call : Call} {id : String}
    (same : e = d → (alone toLowercase d (s.rows d) call)[id]? = (s.rows d)[id]?) :
    (s.perform toLowercase d call e)[id]? = (s.rows e)[id]? := by
  rw [perform]
  by_cases here : e = d
  · subst here
    rw [Function.update_self]
    exact same rfl
  · rw [Function.update_of_ne here]

theorem recordInvite_rows (d : DeviceId) (id name : String) (members : List DeviceId) :
    (s.recordInvite d id name members).rows = s.rows ∧
      (s.recordInvite d id name members).flight = s.flight := by
  rw [recordInvite]
  split <;> exact ⟨rfl, rfl⟩

theorem Formed.receive (formed : s.Formed) (p : Packet) : (s.receive toLowercase p).Formed := by
  rw [Net.receive]
  split
  · rename_i group name members _
    obtain ⟨rows, flight⟩ := recordInvite_rows (s := s) p.receiver group name members
    exact ⟨rows ▸ formed.keyed, flight ▸ formed.selfless⟩
  · exact ⟨keyed_perform formed p.receiver _, formed.selfless⟩

theorem Formed.step (formed : s.Formed) (event : Event) : (s.step toLowercase event).Formed := by
  cases event with
  | create d name minted => exact ⟨keyed_perform formed d _, formed.selfless⟩
  | invite d target id =>
    rw [Net.step]
    split
    · exact formed
    · refine ⟨formed.keyed, fun e id' under => ?_⟩
      rcases List.mem_append.mp under with old | new
      · exact formed.selfless e id' old
      · exact nomatch (List.mem_singleton.mp new)
  | accept d id =>
    rw [Net.step]
    split
    · exact formed
    · split
      · exact formed
      · refine ⟨keyed_perform formed d _, fun e id' under => ?_⟩
        rcases List.mem_append.mp under with old | new
        · exact formed.selfless e id' old
        · obtain ⟨member, -, same⟩ := List.mem_map.mp new
          exact nomatch same
  | leave d id =>
    rw [Net.step]
    split
    · exact formed
    · refine ⟨keyed_perform formed d _, fun e id' under => ?_⟩
      rcases List.mem_append.mp under with old | new
      · exact formed.selfless e id' old
      · obtain ⟨member, recipient, same⟩ := List.mem_map.mp new
        cases same
        exact of_decide_eq_true (List.mem_filter.mp recipient).2 rfl
  | deliver n =>
    rw [Net.step]
    split
    · exact formed
    · have taken : Formed { s with flight := s.flight.eraseIdx n } :=
        ⟨formed.keyed, fun d id under => formed.selfless d id (List.mem_of_mem_eraseIdx under)⟩
      exact taken.receive _

theorem formed_empty : empty.Formed := by
  refine ⟨fun d id g found => ?_, fun d id under => ?_⟩
  · simp [empty] at found
  · exact absurd under List.not_mem_nil

theorem formed_run (events : List Event) : (events.foldl (Net.step toLowercase) empty).Formed :=
  TransitionRun.invariant formed_empty (fun _ event formed => formed.step event) events

/-- A call that puts in one record. -/
theorem perform_insert {d : DeviceId} {call : Call} {g : Group}
    (put : alone toLowercase d (s.rows d) call = (s.rows d).insert g.id g) (e : DeviceId)
    (id : String) : (s.perform toLowercase d call e)[id]? =
      if e = d ∧ g.id = id then some g else (s.rows e)[id]? := by
  rw [perform]
  by_cases same : e = d
  · subst same
    rw [Function.update_self, put, SortedMap.get_insert]
    simp only [true_and]
  · rw [Function.update_of_ne same, if_neg fun h => same h.1]

theorem consistent_create {id : String} {d : DeviceId} {name minted : String}
    (h : (s.view id).Consistent) (ok : s.Allowed (.create d name minted)) :
    ((s.step toLowercase (.create d name minted)).view id).Consistent := by
  have made := alone_create toLowercase d (s.rows d) name minted
  cases create : createGroup toLowercase d (s.rows d) name minted with
  | error e =>
    rw [create] at made
    exact consistent_congr h (fun e => perform_get fun _ => congrArg (·[id]?) made)
      (fun _ _ => Iff.rfl) (fun _ _ => Iff.rfl)
  | ok g =>
    rw [create] at made
    have rows := perform_insert made
    obtain ⟨own, members⟩ := createGroup_ok create
    by_cases here : minted = id
    · subst here
      have fresh (e : DeviceId) : (s.rows e)[minted]? = none :=
        Option.not_isSome_iff_eq_none.mp (ok.1 e)
      apply View.consistent_of_founded (x := d)
      · ext e
        show (s.perform toLowercase d (.create name minted) e)[minted]?.isSome ↔ e = d
        rw [rows, fresh, own]
        split <;> simp_all
      · ext x
        show Member (s.perform toLowercase d (.create name minted) d) minted x ↔ x = d
        rw [Member, rows, if_pos ⟨rfl, own⟩]
        simp [members]
      · exact Set.eq_empty_of_forall_notMem fun x under => (ok.2 x d).1 under
      · exact Set.eq_empty_of_forall_notMem fun x under => (ok.2 x d).2 under
    · refine consistent_congr h (fun e => ?_) (fun _ _ => Iff.rfl) (fun _ _ => Iff.rfl)
      exact (rows e id).trans (if_neg fun same => here (own.symm.trans same.2))

theorem consistent_invite {id group : String} {d target : DeviceId} (h : (s.view id).Consistent) :
    ((s.step toLowercase (.invite d target group)).view id).Consistent := by
  rw [step]
  split
  · exact h
  · refine consistent_congr h (fun _ => rfl) (fun x e => ?_) (fun x e => ?_) <;> simp

theorem consistent_accept {id group : String} {d : DeviceId} (formed : s.Formed)
    (h : (s.view id).Consistent) (ok : s.Allowed (.accept d group)) :
    ((s.step toLowercase (.accept d group)).view id).Consistent := by
  rw [step]
  split
  · exact h
  rename_i invite waiting
  split
  · exact h
  rename_i g adopt
  obtain ⟨own, roster, -⟩ := adoptGroup_ok adopt
  have made := alone_adopt toLowercase d (s.rows d) group invite.name invite.members
  rw [adopt] at made
  have rows := perform_insert made
  by_cases here : group = id
  · subst here
    obtain ⟨current, departed, arrived, settled⟩ := ok invite waiting
    have outside : ¬ (s.rows d)[group]?.isSome := by
      intro held
      rw [pending, if_pos held] at waiting
      cases waiting
    refine h.join (x := d) ?_ ?_ ?_ ?_ ?_ ?_ ?_ ?_
    · ext e
      show (s.perform toLowercase d (.adopt group invite.name invite.members) e)[group]?.isSome ↔
        e = d ∨ (s.rows e)[group]?.isSome
      rw [rows]
      split <;> simp_all
    · ext x
      show Member (s.perform toLowercase d (.adopt group invite.name invite.members) d) group x ↔
        x = d ∨ (s.rows x)[group]?.isSome
      rw [Member, rows, if_pos ⟨rfl, own⟩, ← current x, or_comm, ← mem_roster, ← roster]
      simp
    · intro e other
      ext x
      show Member (s.perform toLowercase d (.adopt group invite.name invite.members) e) group x ↔
        Member (s.rows e) group x
      rw [Member, rows, if_neg fun same => other same.1]
      rfl
    · intro e y
      show _ ∈ s.flight ++ _ ↔ _ ∈ s.flight ∨ y = d ∧ (s.rows e)[group]?.isSome
      rw [List.mem_append, ← current e, own]
      simp [eq_comm, and_comm]
    · funext e
      ext y
      show _ ∈ s.flight ++ _ ↔ _ ∈ s.flight
      rw [List.mem_append]
      simp
    · rintro y under (rfl | held)
      · exact formed.selfless y group under
      · exact departed y under held
    · exact fun y under => .inr (arrived y under)
    · exact fun e held => settled e held
  · refine consistent_congr h (fun e => ?_) (fun x e => ?_) (fun x e => ?_)
    · exact (rows e id).trans (if_neg fun same => here (own.symm.trans same.2))
    · rw [List.mem_append, own]
      simp [here]
    · rw [List.mem_append]
      simp

theorem consistent_leave {id group : String} {d : DeviceId} (formed : s.Formed)
    (h : (s.view id).Consistent) (ok : s.Allowed (.leave d group)) :
    ((s.step toLowercase (.leave d group)).view id).Consistent := by
  rw [step]
  split
  · exact h
  rename_i g found
  have own : g.id = group := formed.keyed d group g found
  have rows (e : DeviceId) (i : String) : (s.perform toLowercase d (.forget g.id) e)[i]? =
      if e = d ∧ group = i then none else (s.rows e)[i]? := by
    rw [perform]
    by_cases same : e = d
    · subst same
      rw [Function.update_self, alone_forget, SortedMap.get_erase, own]
      simp only [true_and]
    · rw [Function.update_of_ne same, if_neg fun h => same h.1]
  by_cases here : group = id
  · subst here
    have names (x : DeviceId) : Member (s.rows d) group x ↔ x ∈ g.members := by
      rw [Member, found]
      simp
    refine h.leave (x := d) ?_ ?_ ?_ ?_ ?_
    · ext e
      show (s.perform toLowercase d (.forget g.id) e)[group]?.isSome ↔
        (s.rows e)[group]?.isSome ∧ e ≠ d
      rw [rows]
      split <;> simp_all
    · intro e other
      ext x
      show Member (s.perform toLowercase d (.forget g.id) e) group x ↔ Member (s.rows e) group x
      rw [Member, rows, if_neg fun same => other same.1]
      rfl
    · funext e
      ext y
      show _ ∈ s.flight ++ _ ↔ _ ∈ s.flight
      rw [List.mem_append]
      simp
    · intro e y
      show _ ∈ s.flight ++ _ ↔ _ ∈ s.flight ∨ y = d ∧ Member (s.rows d) group e ∧ e ≠ d
      rw [List.mem_append, names, own, Group.recipients]
      refine or_congr_right ?_
      simp only [List.mem_map, List.mem_filter, decide_eq_true_eq, Packet.mk.injEq, and_true]
      constructor
      · rintro ⟨m, named, from_, same⟩
        exact ⟨from_.symm, same ▸ named⟩
      · rintro ⟨same, named⟩
        exact ⟨e, named, same.symm, rfl⟩
    · intro e held other
      obtain ⟨known, told⟩ := ok g found e other held
      exact ⟨(names e).mpr known, told⟩
  · refine consistent_congr h (fun e => ?_) (fun x e => ?_) (fun x e => ?_)
    · exact (rows e id).trans (if_neg fun same => here same.2)
    · rw [List.mem_append]
      simp
    · rw [List.mem_append, own]
      simp [here]

theorem mem_eraseIdx_of_ne {flight : List Packet} {n : Nat} {p q : Packet}
    (at' : flight[n]? = some p) (mem : q ∈ flight) (other : q ≠ p) : q ∈ flight.eraseIdx n := by
  obtain ⟨i, found⟩ := List.mem_iff_getElem?.mp mem
  refine List.mem_eraseIdx_iff_getElem?.mpr ⟨i, ?_, found⟩
  rintro rfl
  exact other (Option.some.inj (found.symm.trans at'))

variable (toLowercase) in
/-- The receiver applies the message; an invitation changes no rows. -/
theorem deliver_eq {n : Nat} {p : Packet} (here : s.flight[n]? = some p) :
    (s.step toLowercase (.deliver n)).rows =
        s.perform toLowercase p.receiver (.apply p.sender p.message) ∧
      (s.step toLowercase (.deliver n)).flight = s.flight.eraseIdx n := by
  simp only [step, here, receive]
  split
  · rename_i group name members invited
    obtain ⟨rows, flight⟩ := recordInvite_rows (s := { s with flight := s.flight.eraseIdx n })
      p.receiver group name members
    refine ⟨rows.trans ?_, flight⟩
    rw [perform, invited]
    exact (Function.update_eq_self p.receiver s.rows).symm
  · exact ⟨rfl, rfl⟩

/-- What a message can do to any device's rows: it brings no group and drops none, and it puts in
or takes out its sender alone, at its receiver. -/
theorem apply_rows (formed : s.Formed) (p : Packet) (d : DeviceId) (id : String) :
    (s.perform toLowercase p.receiver (.apply p.sender p.message) d)[id]?.isSome =
        (s.rows d)[id]?.isSome ∧
      ∀ x, x ≠ p.sender ∨ d ≠ p.receiver →
        (Member (s.perform toLowercase p.receiver (.apply p.sender p.message) d) id x ↔
          Member (s.rows d) id x) := by
  rw [perform]
  by_cases here : d = p.receiver
  · subst here
    rw [Function.update_self]
    have keyed := formed.keyed p.receiver
    cases p.message with
    | joined group =>
      refine ⟨joined_stored keyed .., fun x other => (joined_member keyed).trans ?_⟩
      exact or_iff_left fun h => (other.resolve_right fun ne => ne rfl) h.2.1
    | left group =>
      refine ⟨left_stored keyed .., fun x other => (left_member keyed).trans ?_⟩
      exact and_iff_left fun h => (other.resolve_right fun ne => ne rfl) h.2
    | invite group name members => exact ⟨rfl, fun _ _ => Iff.rfl⟩
    | other => exact ⟨rfl, fun _ _ => Iff.rfl⟩
  · rw [Function.update_of_ne here]
    exact ⟨rfl, fun _ _ => Iff.rfl⟩

/-- At the receiver, the sender is named as it should be once its message has been applied. -/
theorem apply_sender (formed : s.Formed) {id : String} {n : Nat} {p : Packet}
    (here : s.flight[n]? = some p) (h : (s.view id).Consistent) (ok : s.Allowed (.deliver n))
    (holder : (s.rows p.receiver)[id]?.isSome) :
    let named := Member (alone toLowercase p.receiver (s.rows p.receiver)
      (.apply p.sender p.message)) id p.sender
    (named → (s.rows p.sender)[id]?.isSome ∨
      ⟨p.sender, p.receiver, .left id⟩ ∈ s.flight.eraseIdx n) ∧
    ((s.rows p.sender)[id]?.isSome → named ∨
      ⟨p.sender, p.receiver, .joined id⟩ ∈ s.flight.eraseIdx n) := by
  have keyed := formed.keyed p.receiver
  have under : ⟨p.sender, p.receiver, p.message⟩ ∈ s.flight := List.mem_of_getElem? here
  -- a message that is not about this group leaves its own announcements where they are
  have untouched (apart : p.message ≠ .joined id ∧ p.message ≠ .left id) {named : Prop}
      (same : named ↔ Member (s.rows p.receiver) id p.sender) :
      (named → (s.rows p.sender)[id]?.isSome ∨
        ⟨p.sender, p.receiver, .left id⟩ ∈ s.flight.eraseIdx n) ∧
      ((s.rows p.sender)[id]?.isSome → named ∨
        ⟨p.sender, p.receiver, .joined id⟩ ∈ s.flight.eraseIdx n) := by
    constructor
    · intro now
      refine (h.named p.receiver holder p.sender (same.mp now)).imp_right fun old => ?_
      exact mem_eraseIdx_of_ne here old fun equal => apart.2 (congrArg Packet.message equal).symm
    · intro held
      refine (h.heard p.receiver holder p.sender held).imp same.mpr fun old => ?_
      exact mem_eraseIdx_of_ne here old fun equal => apart.1 (congrArg Packet.message equal).symm
  cases message : p.message with
  | joined group =>
    by_cases same : group = id
    · subst same
      rw [message] at under
      exact ⟨fun _ => .inl (h.joined p.receiver holder p.sender under),
        fun _ => .inl (joined_taken keyed (ok p group here message) holder)⟩
    · refine untouched ⟨?_, ?_⟩ ((joined_member keyed).trans (or_iff_left fun h => same h.1))
      · rw [message]
        exact fun equal => same (Message.joined.inj equal)
      · rw [message]
        exact fun equal => nomatch equal
  | left group =>
    by_cases same : group = id
    · subst same
      rw [message] at under
      exact ⟨fun now => absurd ⟨rfl, rfl⟩ ((left_member keyed).mp now).2,
        fun held => absurd held (h.left p.receiver holder p.sender under)⟩
    · refine untouched ⟨?_, ?_⟩ ((left_member keyed).trans (and_iff_left fun h => same h.1))
      · rw [message]
        exact fun equal => nomatch equal
      · rw [message]
        exact fun equal => same (Message.left.inj equal)
  | invite group name members =>
    refine untouched ⟨?_, ?_⟩ Iff.rfl <;> rw [message] <;> exact fun equal => nomatch equal
  | other =>
    refine untouched ⟨?_, ?_⟩ Iff.rfl <;> rw [message] <;> exact fun equal => nomatch equal

theorem consistent_deliver {id : String} {n : Nat} (formed : s.Formed)
    (h : (s.view id).Consistent) (ok : s.Allowed (.deliver n)) :
    ((s.step toLowercase (.deliver n)).view id).Consistent := by
  cases here : s.flight[n]? with
  | none =>
    rw [step, here]
    exact h
  | some p =>
    obtain ⟨rows, flight⟩ := deliver_eq toLowercase here
    refine h.arrive (x := p.sender) (r := p.receiver) ?_ ?_ ?_ ?_ ?_ ?_
    · ext d
      show ((s.step toLowercase (.deliver n)).rows d)[id]?.isSome ↔ (s.rows d)[id]?.isSome
      rw [rows, (apply_rows formed p d id).1]
    · intro d y elsewhere
      show Member ((s.step toLowercase (.deliver n)).rows d) id y ↔ Member (s.rows d) id y
      rw [rows]
      exact (apply_rows formed p d id).2 y elsewhere
    · intro d y (mem : _ ∈ (s.step toLowercase (.deliver n)).flight)
      rw [flight] at mem
      exact List.mem_of_mem_eraseIdx mem
    · intro d y (mem : _ ∈ (s.step toLowercase (.deliver n)).flight)
      rw [flight] at mem
      exact List.mem_of_mem_eraseIdx mem
    · intro d y elsewhere
      have stays (m : Message) (mem : ⟨y, d, m⟩ ∈ s.flight) :
          ⟨y, d, m⟩ ∈ (s.step toLowercase (.deliver n)).flight := by
        rw [flight]
        refine mem_eraseIdx_of_ne here mem ?_
        rintro rfl
        exact elsewhere.elim (fun ne => ne rfl) (fun ne => ne rfl)
      exact ⟨stays (.joined id), stays (.left id)⟩
    · intro holder
      show (Member ((s.step toLowercase (.deliver n)).rows p.receiver) id p.sender →
          _ ∨ _ ∈ (s.step toLowercase (.deliver n)).flight) ∧
        (_ → Member ((s.step toLowercase (.deliver n)).rows p.receiver) id p.sender ∨
          _ ∈ (s.step toLowercase (.deliver n)).flight)
      rw [rows, flight, perform, Function.update_self]
      exact apply_sender formed here h ok holder

theorem consistent_step {id : String} {event : Event} (formed : s.Formed)
    (h : (s.view id).Consistent) (ok : s.Allowed event) :
    ((s.step toLowercase event).view id).Consistent := by
  cases event with
  | create d name minted => exact consistent_create h ok
  | invite d target group => exact consistent_invite h
  | accept d group => exact consistent_accept formed h ok
  | leave d group => exact consistent_leave formed h ok
  | deliver n => exact consistent_deliver formed h ok

theorem consistent_run {events : List Event}
    (ok : TransitionRun.Along (Net.step toLowercase) Allowed empty events) (id : String) :
    ((events.foldl (Net.step toLowercase) empty).view id).Consistent := by
  have start : (empty.view id).Consistent := by
    refine View.consistent_of_unheld (Set.eq_empty_of_forall_notMem fun d held => ?_)
    simp [view, empty] at held
  exact (ok.invariant (I := fun s => s.Formed ∧ (s.view id).Consistent) ⟨formed_empty, start⟩
    fun s event h allowed => ⟨h.1.step event, consistent_step h.1 h.2 allowed⟩).2

end Steps

def Settled (s : Net) (id : String) : Prop :=
  ∀ p ∈ s.flight, p.message ≠ .joined id ∧ p.message ≠ .left id

/-- All who hold the group name the same devices: those who hold it. -/
def Agreed (s : Net) (id : String) : Prop :=
  ∀ d g, (s.rows d)[id]? = some g → ∀ x, x ∈ g.members ↔ (s.rows x)[id]?.isSome

/-- In every run whose rosters are current when they are adopted and left, all who hold a group
agree on its members whenever nothing of it is under way. In every run whatsoever, a message
brings no group to any device, and puts in or takes out nobody but its sender. -/
theorem group_members_agree (toLowercase : String → String) (events : List Event) :
    let s := events.foldl (Net.step toLowercase) empty
    (TransitionRun.Along (Net.step toLowercase) Allowed empty events →
      ∀ id, s.Settled id → s.Agreed id) ∧
    ∀ n p, s.flight[n]? = some p → ∀ d id,
      (((s.step toLowercase (.deliver n)).rows d)[id]?.isSome ↔ (s.rows d)[id]?.isSome) ∧
      ∀ x, x ≠ p.sender ∨ d ≠ p.receiver →
        (Member ((s.step toLowercase (.deliver n)).rows d) id x ↔ Member (s.rows d) id x) := by
  intro s
  constructor
  · intro ok id settled d g found x
    have holder : d ∈ (s.view id).holds := Option.isSome_iff_exists.mpr ⟨g, found⟩
    have joining : (s.view id).joining d = ∅ :=
      Set.eq_empty_of_forall_notMem fun y under => (settled _ under).1 rfl
    have leaving : (s.view id).leaving d = ∅ :=
      Set.eq_empty_of_forall_notMem fun y under => (settled _ under).2 rfl
    have names : x ∈ (s.view id).names d ↔ x ∈ (s.view id).holds :=
      Set.ext_iff.mp ((consistent_run ok id).names_eq holder joining leaving) x
    refine Iff.trans ⟨fun mem => ⟨g, found, mem⟩, ?_⟩ names
    rintro ⟨h, same, mem⟩
    cases found.symm.trans same
    exact mem
  · intro n p here d id
    rw [(deliver_eq toLowercase here).1]
    obtain ⟨stored, members⟩ := apply_rows (formed_run events) p d id
    exact ⟨Bool.eq_iff_iff.mp stored, members⟩

/-- An invitation that is answered before the roster changes meets the condition. -/
theorem invitation_in_turn_agrees :
    let lower := fun s : String => String.ofList (s.toList.map Char.toLower)
    let run := [Event.create "pb-a" "Trip" "g1", .invite "pb-a" "pb-b" "g1", .deliver 0,
      .accept "pb-b" "g1", .deliver 0]
    TransitionRun.Along (Net.step lower) Allowed empty run ∧
      (run.foldl (Net.step lower) empty).Agreed "g1" := by
  intro lower run
  have along : TransitionRun.Along (Net.step lower) Allowed empty run := by
    refine ⟨⟨fun d => ?_, fun x d => ⟨List.not_mem_nil, List.not_mem_nil⟩⟩, trivial, ?_, ?_, ?_, trivial⟩
    · simp [empty]
    · intro p group here message
      have invited : some p = some ⟨"pb-a", "pb-b", .invite "g1" "Trip" ["pb-a"]⟩ :=
        here.symm.trans (by decide)
      cases invited
      cases message
    · intro invite waiting
      have offered : some invite = some ⟨"Trip", ["pb-a"]⟩ := waiting.symm.trans (by decide)
      cases offered
      refine ⟨fun x => ?_, fun x => (absurd · List.not_mem_nil), fun x => (absurd · List.not_mem_nil),
        fun x _ => List.not_mem_nil⟩
      rw [List.mem_singleton]
      by_cases same : x = "pb-a"
      · subst same
        exact iff_of_true rfl (by decide)
      · refine iff_of_false same ?_
        show ¬ (Function.update (fun _ => (∅ : Rows)) "pb-a" _ x)["g1"]?.isSome
        rw [Function.update_of_ne same]
        simp
    · intro p group here message
      have announced : some p = some ⟨"pb-b", "pb-a", .joined "g1"⟩ := here.symm.trans (by decide)
      cases announced
      cases message
      intro g found
      have stored : some g = some ⟨"g1", "Trip", ["pb-a"]⟩ := found.symm.trans (by decide)
      cases stored
      decide
  exact ⟨along, (group_members_agree lower run).1 along "g1" fun p => (absurd · List.not_mem_nil)⟩

/-- One member invites two others before either has answered: each of them is told to the
inviter alone, and when everything has arrived they do not know of each other. -/
theorem overlapping_invitations_disagree :
    let lower := fun s : String => String.ofList (s.toList.map Char.toLower)
    let s := [Event.create "pb-a" "Trip" "g1", .invite "pb-a" "pb-b" "g1", .invite "pb-a" "pb-c" "g1",
      .deliver 0, .deliver 0, .accept "pb-b" "g1", .accept "pb-c" "g1", .deliver 0,
      .deliver 0].foldl (Net.step lower) empty
    s.flight = [] ∧ ¬ s.Agreed "g1" ∧
      (s.rows "pb-a")["g1"]? = some ⟨"g1", "Trip", ["pb-a", "pb-b", "pb-c"]⟩ ∧
      (s.rows "pb-b")["g1"]? = some ⟨"g1", "Trip", ["pb-a", "pb-b"]⟩ ∧
      (s.rows "pb-c")["g1"]? = some ⟨"g1", "Trip", ["pb-a", "pb-c"]⟩ := by
  refine ⟨by decide, fun agreed => ?_, by decide, by decide, by decide⟩
  have known := (agreed "pb-b" ⟨"g1", "Trip", ["pb-a", "pb-b"]⟩ (by decide) "pb-c").mpr (by decide)
  exact absurd known (by decide)

end Net

end PeerBeam.Groups
