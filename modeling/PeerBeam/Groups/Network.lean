import PeerBeam.Groups.Rosters

/-! Devices that exchange membership messages. Each has a group store of its own, whose calls are
here made one at a time, and the invitations it has not answered. -/
namespace PeerBeam.Groups

section Alone
variable (toLowercase : String → String) (me : DeviceId) (rows : Rows)

def World.single (rows : Rows) (lock : Option ThreadId) (task : Option Task) : World :=
  ⟨rows, lock, fun t => if t = 0 then task else none⟩

/-- The rows after a call that no other interrupts; three accesses end every call. -/
def alone (call : Call) : Rows :=
  ([.run 0, .run 0, .run 0].foldl (World.step toLowercase me)
    (.single rows none (some (.begin call)))).rows

theorem step_single (lock : Option ThreadId) (task : Task) :
    (World.single rows lock (some task)).step toLowercase me (.run 0) =
      let a := (World.single rows lock (some task)).access toLowercase me 0 task
      .single (a.effect.elim rows (·.write rows)) a.lock a.task := by
  simp only [World.step, World.single, if_pos]
  congr 1
  funext t
  by_cases first : t = 0
  · rw [first, Function.update_self, if_pos rfl]
  · rw [Function.update_of_ne first, if_neg first, if_neg first]

@[simp]
theorem step_ended (lock : Option ThreadId) :
    (World.single rows lock none).step toLowercase me (.run 0) = .single rows lock none := rfl

theorem alone_eq (call : Call) : alone toLowercase me rows call =
    (((World.single rows none (some (.begin call))).step toLowercase me (.run 0)).step
      toLowercase me (.run 0) |>.step toLowercase me (.run 0)).rows := rfl

theorem alone_adopt (id name : String) (members : List DeviceId) :
    alone toLowercase me rows (.adopt id name members) =
      (adoptGroup me id name members).toOption.elim rows fun g => rows.insert g.id g := by
  rw [alone_eq, step_single]
  cases adopt : adoptGroup me id name members with
  | error e =>
    simp only [World.access, World.single, adopt]
    rfl
  | ok g =>
    simp only [World.access, World.single, adopt]
    rfl

theorem alone_forget (id : String) : alone toLowercase me rows (.forget id) = rows.erase id := rfl

theorem alone_create (name minted : String) :
    alone toLowercase me rows (.create name minted) =
      (createGroup toLowercase me rows name minted).toOption.elim rows
        fun g => rows.insert g.id g := by
  rw [alone_eq, step_single]
  have read : (World.single rows none (some (.begin (.create name minted)))).access toLowercase me 0
      (.begin (.create name minted)) =
      ⟨none, none, (createGroup toLowercase me rows name minted).toOption.map .created⟩ := rfl
  rw [read]
  cases createGroup toLowercase me rows name minted with
  | error e => rfl
  | ok g => rfl

theorem alone_left (sender : DeviceId) (group : String) :
    alone toLowercase me rows (.apply sender (.left group)) =
      rows[group]?.elim rows fun g =>
        rows.insert g.id { g with members := g.members.filter (· ≠ sender) } := by
  rw [alone_eq, step_single]
  have read : (World.single rows none (some (.begin (.apply sender (.left group))))).access
      toLowercase me 0 (.begin (.apply sender (.left group))) = ⟨none, none,
        if rows[group]?.isSome then some (.begin (.removeMember group sender)) else none⟩ := rfl
  rw [read]
  cases found : rows[group]? with
  | none => rfl
  | some g =>
    show ((((World.single rows none (some (.begin (.removeMember group sender)))).step toLowercase me
      (.run 0)).step toLowercase me (.run 0)).rows) = _
    rw [step_single]
    have ready : removeMember rows group sender = .ok (some (.writing
        (.removed sender { g with members := g.members.filter (· ≠ sender) }))) := by
      rw [removeMember, Rows.get, found]
      rfl
    simp only [World.access, World.single, World.locked, ready]
    rfl

theorem alone_joined (sender : DeviceId) (group : String) :
    alone toLowercase me rows (.apply sender (.joined group)) =
      rows[group]?.elim rows fun g =>
        if validateMember sender = .ok () ∧ sender ∉ g.members ∧ g.members.length < maxMembers then
          rows.insert g.id { g with members := g.members ++ [sender] }
        else rows := by
  rw [alone_eq, step_single]
  have read : (World.single rows none (some (.begin (.apply sender (.joined group))))).access
      toLowercase me 0 (.begin (.apply sender (.joined group))) = ⟨none, none,
        if rows[group]?.isSome then some (.begin (.addMember group sender)) else none⟩ := rfl
  rw [read]
  cases found : rows[group]? with
  | none => rfl
  | some g =>
    show ((((World.single rows none (some (.begin (.addMember group sender)))).step toLowercase me
      (.run 0)).step toLowercase me (.run 0)).rows) = _
    rw [step_single]
    have stored : rows.get group = .ok g := by
      rw [Rows.get, found]
    cases valid : validateMember sender with
    | error e =>
      have refused : addMember rows group sender = .error e := by
        rw [addMember, valid]
        rfl
      simp only [World.access, World.single, World.locked, refused]
      rfl
    | ok u =>
      have outcome : addMember rows group sender =
          if sender ∈ g.members then .ok none
          else if maxMembers < g.members.length + 1 then .error .tooManyMembers
          else .ok (some (.writing (.added sender { g with members := g.members ++ [sender] }))) := by
        rw [addMember, valid, stored]
        rfl
      by_cases mem : sender ∈ g.members
      · rw [if_pos mem] at outcome
        rw [Option.elim_some, if_neg fun h => h.2.1 mem]
        simp only [World.access, World.single, World.locked, outcome]
        rfl
      · by_cases room : g.members.length < maxMembers
        · rw [if_neg mem, if_neg (Nat.not_lt.mpr room)] at outcome
          rw [Option.elim_some, if_pos ⟨rfl, mem, room⟩]
          simp only [World.access, World.single, World.locked, outcome]
          rfl
        · rw [if_neg mem, if_pos (Nat.lt_succ_of_le (Nat.not_lt.mp room))] at outcome
          rw [Option.elim_some, if_neg fun h => room h.2.2]
          simp only [World.access, World.single, World.locked, outcome]
          rfl

end Alone

structure PendingInvite where
  name : String
  members : List DeviceId
  deriving DecidableEq

structure Packet where
  sender : DeviceId
  receiver : DeviceId
  message : Message
  deriving DecidableEq

/-- The devices, each with its groups and pending invitations, and the messages under way. -/
structure Net where
  rows : DeviceId → Rows
  invites : DeviceId → String → Option PendingInvite
  flight : List Packet

inductive Net.Event
  | create (d : DeviceId) (name minted : String)
  | invite (d target : DeviceId) (id : String)
  | accept (d : DeviceId) (id : String)
  | leave (d : DeviceId) (id : String)
  | deliver (n : Nat)

namespace Net
variable (toLowercase : String → String) (s : Net)

def empty : Net := ⟨fun _ => ∅, fun _ _ => none, []⟩

def perform (d : DeviceId) (call : Call) : DeviceId → Rows :=
  Function.update s.rows d (alone toLowercase d (s.rows d) call)

/-- An invitation that waits for an answer; one to a group that is held does not. -/
def pending (d : DeviceId) (id : String) : Option PendingInvite :=
  if (s.rows d)[id]?.isSome then none else s.invites d id

/-- `record_invite`: a later invitation to the same group replaces the earlier one. -/
def recordInvite (d : DeviceId) (id name : String) (members : List DeviceId) : Net :=
  match members.forM validateMember with
  | .error _ => s
  | .ok _ => { s with
      invites := Function.update s.invites d
        (Function.update (s.invites d) id (some ⟨name, members⟩)) }

/-- The receiver applies a message; an invitation is held until it is answered. -/
def receive (p : Packet) : Net :=
  match p.message with
  | .invite group name members => s.recordInvite p.receiver group name members
  | message => { s with rows := s.perform toLowercase p.receiver (.apply p.sender message) }

/-- Links lose nothing and add nothing; any message under way may be the next to arrive. -/
def step : Event → Net
  | .create d name minted => { s with rows := s.perform toLowercase d (.create name minted) }
  | .invite d target id =>
    match (s.rows d)[id]? with
    | none => s
    | some g => { s with flight := s.flight ++ [⟨d, target, .invite g.id g.name g.members⟩] }
  | .accept d id =>
    match s.pending d id with
    | none => s
    | some invite =>
      match adoptGroup d id invite.name invite.members with
      | .error _ => s
      | .ok g =>
        { rows := s.perform toLowercase d (.adopt id invite.name invite.members)
          invites := Function.update s.invites d (Function.update (s.invites d) id none)
          flight := s.flight ++ invite.members.map fun member => ⟨d, member, .joined g.id⟩ }
  | .leave d id =>
    match (s.rows d)[id]? with
    | none => s
    | some g =>
      { s with
        rows := s.perform toLowercase d (.forget g.id)
        flight := s.flight ++ (g.recipients d).map fun member => ⟨d, member, .left g.id⟩ }
  | .deliver n =>
    match s.flight[n]? with
    | none => s
    | some p => { s with flight := s.flight.eraseIdx n }.receive toLowercase p

end Net

end PeerBeam.Groups
