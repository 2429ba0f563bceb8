import PeerBeam.Spaces.Store

/-! Edits of spaces made at once: which of them stand, and which are undone by a record that is written back
after something else in it changed. -/
namespace PeerBeam.Spaces
open Program (ret fail)

abbrev Heard := Asked Call Call.Answer SpaceError

/-- The edit was made: it has changed what is stored, or says so. -/
def Reply.made : Reply → Bool
  | .space _ => true
  | .changed yes => yes

def effective : Heard → Bool
  | ⟨.put _, .ok _⟩ => true
  | ⟨.delete _, .ok yes⟩ => yes
  | _ => false

def readBy : Heard → Option Space
  | ⟨.get _, .ok (some (.ok s))⟩ => some s
  | _ => none

abbrev Edits (ι : Type) := Pool Rows ι Call Call.Answer SpaceError Reply

section
variable {ι : Type}

def returned (w : Edits ι) (i : ι) : Bool :=
  match w.threads i with
  | .ret a => a.made
  | _ => false

end

namespace Edit

def Stands (rows : Rows) : Edit → Prop
  | .create .. => True
  | .rename id name _ => ∃ s, rows[id]? = some (.ok s) ∧ validateName name = .ok s.name
  | .delete id => rows[id]? = none
  | .addMember id m _ => ∃ s, rows[id]? = some (.ok s) ∧ m ∈ s.members
  | .removeMember id m => ∀ s, rows[id]? = some (.ok s) → m ∉ s.members

/-- The later edit takes back what the earlier one did, as it should. -/
def Undoes (later : Edit) : Edit → Prop
  | .create .. | .delete _ => False
  | .rename id _ _ => (∃ name isTrusted, later = .rename id name isTrusted) ∨ later = .delete id
  | .addMember id m _ => later = .removeMember id m ∨ later = .delete id
  | .removeMember id m => ∃ lookup, later = .addMember id m lookup

def Writes (own : List Heard) (s : Space) : Edit → Prop
  | .create _ minted _ => s.id = minted ∧ s.members = []
  | .rename id name _ => ∃ read, own.filterMap readBy = [read] ∧ read.id = id ∧ s.id = id ∧
      validateName name = .ok s.name ∧ s.members = read.members
  | .delete _ => False
  | .addMember id m _ => ∃ read, own.filterMap readBy = [read] ∧ read.id = id ∧ m ∉ read.members ∧
      s = { read with members := read.members ++ [m] }
  | .removeMember id m => ∃ read, own.filterMap readBy = [read] ∧ read.id = id ∧
      s = { read with members := read.members.filter (· ≠ m) }

/-- The stored record differs from the one that was read at most in what the edit sets. -/
def Agrees (read stored : Space) : Edit → Prop
  | .rename .. => stored.members.toFinset = read.members.toFinset
  | .addMember _ m _ | .removeMember _ m =>
    stored.name = read.name ∧ stored.members.toFinset.erase m = read.members.toFinset.erase m
  | _ => True

instance (read stored : Space) : (e : Edit) → Decidable (e.Agrees read stored)
  | .rename .. => inferInstanceAs (Decidable (_ = _))
  | .addMember .. | .removeMember .. => inferInstanceAs (Decidable (_ ∧ _))
  | .create .. | .delete _ => inferInstanceAs (Decidable True)

end Edit

/-- Every record is stored under its id and names nobody twice. -/
def Sound (rows : Rows) : Prop :=
  ∀ (id : String) (s : Space), rows[id]? = some (.ok s) → s.id = id ∧ s.members.Nodup

/-- A record that is read is as records are stored. -/
def Honest : (c : Call) → Except SpaceError c.Answer → Prop
  | .get id, .ok (some (.ok s)) => s.id = id ∧ s.members.Nodup
  | _, _ => True

namespace Edit
variable (e : Edit)

/-- A call an edit makes: it is its last if it has an effect. -/
def Due (own : List Heard) : Call → Prop
  | .put s => own.any effective = false ∧ e.Writes own s ∧ s.members.Nodup
  | .delete id => own.any effective = false ∧ e = .delete id
  | _ => own.any effective = false

abbrev Keeps {α : Type} (p : Prog α) (done : α → List Heard → Prop) (own : List Heard) : Prop :=
  p.wp (Pool.Hears fun _ => Honest) e.Due done (fun _ own => own.any effective = false) own

/-- An edit has changed something exactly where it says so. -/
def Ends (a : Reply) (own : List Heard) : Prop := own.any effective = a.made

variable {e}

theorem keeps_lift {α : Type} {r : Except SpaceError α} {done : α → List Heard → Prop} {own : List Heard}
    (quiet : own.any effective = false) (ok : ∀ a, r = .ok a → done a own) :
    e.Keeps (Prog.lift r) done own := by
  cases r with
  | error err => exact quiet
  | ok a => exact ok a rfl

theorem keeps_record {id : String} {done : Space → List Heard → Prop}
    (ok : ∀ read own, own.filterMap readBy = [read] → read.id = id → read.members.Nodup →
      own.any effective = false → done read own) : e.Keeps (Prog.record id) done [] := by
  show e.Keeps (Prog.ask (.get id) >>= _) _ _
  rw [Keeps, Program.wp_bind, Prog.ask, Program.wp_ask]
  refine ⟨rfl, ?_, ?_⟩
  · rintro (_ | _ | s) _ ⟨honest, rfl⟩
    · exact rfl
    · exact rfl
    · exact ok s _ rfl honest.1 honest.2 rfl
  · rintro err _ ⟨-, rfl⟩
    exact rfl

theorem keeps_refuseNameClash {toLowercase : String → String} {name : String} {keep : Option String}
    {done : Unit → List Heard → Prop} {own : List Heard} (quiet : own.any effective = false)
    (ok : ∀ own', own'.filterMap readBy = own.filterMap readBy → own'.any effective = false → done () own') :
    e.Keeps (Prog.refuseNameClash toLowercase name keep) done own := by
  have silent (answer : Except SpaceError (List (String × Row))) :
      (own ++ [⟨Call.list, answer⟩] : List Heard).any effective = false := by
    rw [List.any_append, quiet]
    rfl
  show e.Keeps (Prog.ask .list >>= _) _ _
  rw [Keeps, Program.wp_bind, Prog.ask, Program.wp_ask]
  refine ⟨quiet, ?_, ?_⟩
  · rintro rows _ ⟨-, rfl⟩
    dsimp only
    split
    · exact silent _
    · refine ok _ ?_ (silent _)
      rw [List.filterMap_append]
      exact List.append_nil _
  · rintro err _ ⟨-, rfl⟩
    exact silent _

/-- What is written back ends the edit. -/
theorem keeps_put {s : Space} {a : Reply} {own : List Heard} (quiet : own.any effective = false)
    (due : e.Writes own s) (nodup : s.members.Nodup) (made : a.made = true) :
    e.Keeps (Prog.ask (.put s) >>= fun _ => ret a) Ends own := by
  rw [Keeps, Program.wp_bind, Prog.ask, Program.wp_ask]
  refine ⟨⟨quiet, due, nodup⟩, ?_, ?_⟩
  · rintro _ _ ⟨-, rfl⟩
    show List.any _ _ = _
    rw [List.any_append, made]
    exact Bool.or_true _
  · rintro err _ ⟨-, rfl⟩
    show List.any _ _ = _
    rw [List.any_append, quiet]
    rfl

theorem keeps_program (toLowercase : String → String) (e : Edit) :
    e.Keeps (e.program toLowercase) Ends [] := by
  cases e with
  | create name minted isTrusted =>
    show Keeps _ (Prog.lift _ >>= _) _ _
    rw [Keeps, Program.wp_bind]
    refine keeps_lift rfl fun name _ => ?_
    show Keeps _ (Prog.refuseNameClash _ _ _ >>= _) _ _
    rw [Keeps, Program.wp_bind]
    refine keeps_refuseNameClash rfl fun own _ quiet => ?_
    exact keeps_put quiet ⟨rfl, rfl⟩ List.nodup_nil rfl
  | rename id raw isTrusted =>
    show Keeps _ (Prog.lift _ >>= _) _ _
    rw [Keeps, Program.wp_bind]
    refine keeps_lift rfl fun name valid => ?_
    show Keeps _ (Prog.record _ >>= _) _ _
    rw [Keeps, Program.wp_bind]
    refine keeps_record fun read own reads own' nodup quiet => ?_
    show Keeps _ (Prog.refuseNameClash _ _ _ >>= _) _ _
    rw [Keeps, Program.wp_bind]
    refine keeps_refuseNameClash quiet fun later same quiet => ?_
    exact keeps_put quiet ⟨read, same.trans reads, own', own', valid, rfl⟩ nodup rfl
  | delete id =>
    show Keeps _ (Prog.ask (.delete id) >>= _) _ _
    rw [Keeps, Program.wp_bind, Prog.ask, Program.wp_ask]
    refine ⟨⟨rfl, rfl⟩, ?_, ?_⟩
    · rintro existed _ ⟨-, rfl⟩
      exact Bool.or_false _
    · rintro err _ ⟨-, rfl⟩
      exact rfl
  | addMember id m lookup =>
    show Keeps _ (Prog.lift _ >>= _) _ _
    rw [Keeps, Program.wp_bind]
    refine keeps_lift rfl fun _ _ => ?_
    show Keeps _ (Prog.record _ >>= _) _ _
    rw [Keeps, Program.wp_bind]
    refine keeps_record fun read own reads own' nodup quiet => ?_
    match lookup with
    | .ok false => exact quiet
    | .error reason => exact quiet
    | .ok true =>
      show Keeps _ (if m ∈ read.members then _ else _) _ _
      split
      · exact quiet
      next new =>
        have nodup' : (read.members ++ [m]).Nodup :=
          List.nodup_append.mpr ⟨nodup, List.nodup_singleton m, fun a mem b last same =>
            new (List.mem_singleton.mp last ▸ same ▸ mem)⟩
        exact keeps_put quiet ⟨read, reads, own', new, rfl⟩ nodup' rfl
  | removeMember id m =>
    show Keeps _ (Prog.record _ >>= _) _ _
    rw [Keeps, Program.wp_bind]
    refine keeps_record fun read own reads own' nodup quiet => ?_
    show Keeps _ (if _ then _ else _) _ _
    split
    · exact quiet
    · exact keeps_put quiet ⟨read, reads, own', rfl⟩ (nodup.filter _) rfl

end Edit

namespace Edit
variable {rows : Rows} {e e' : Edit} {own : List Heard} {s : Space}

def deletes : Edit → Option String
  | .delete id => some id
  | _ => none

/-- What is stored is what the edit takes it for: nothing yet, or the record as it was read. -/
def Fits (own : List Heard) (stored : Option Row) : Edit → Prop
  | .create .. => stored = none
  | e => ∃ s ∈ stored.bind Except.toOption, ∀ read ∈ own.filterMap readBy, e.Agrees read s

instance (own : List Heard) (stored : Option Row) : (e : Edit) → Decidable (e.Fits own stored)
  | .create .. => inferInstanceAs (Decidable (stored = none))
  | .rename .. | .delete _ | .addMember .. | .removeMember .. =>
    inferInstanceAs (Decidable (∃ s ∈ _, ∀ read ∈ _, Agrees read s _))

/-- A write over a stored record changes what its edit is about, and nothing else. -/
structure Changes (e : Edit) (stored s : Space) : Prop where
  name : s.name = stored.name ∨ ∃ name isTrusted, e = .rename s.id name isTrusted
  kept : ∀ m ∈ stored.members, m ∈ s.members ∨ e = .removeMember s.id m
  new : ∀ m ∈ s.members, m ∈ stored.members ∨ ∃ lookup, e = .addMember s.id m lookup

private theorem mem_of_erase {a b : List DeviceId} {m other : DeviceId}
    (same : a.toFinset.erase m = b.toFinset.erase m) (apart : other ≠ m) : other ∈ a ↔ other ∈ b := by
  have here := Finset.ext_iff.mp same other
  rwa [Finset.mem_erase, Finset.mem_erase, and_iff_right apart, and_iff_right apart, List.mem_toFinset,
    List.mem_toFinset] at here

theorem changes (due : e.Writes own s) (fits : e.Fits own rows[s.id]?) :
    (rows[s.id]? = none ∧ s.members = []) ∨ ∃ stored, rows[s.id]? = some (.ok stored) ∧ e.Changes stored s := by
  have found (e : Edit) {read : Space} (reads : own.filterMap readBy = [read])
      (there : ∃ stored ∈ rows[s.id]?.bind Except.toOption, ∀ r ∈ own.filterMap readBy, e.Agrees r stored) :
      ∃ stored, rows[s.id]? = some (.ok stored) ∧ e.Agrees read stored := by
    obtain ⟨stored, mem, agrees⟩ := there
    obtain ⟨row, here, ok⟩ := Option.bind_eq_some_iff.mp mem
    refine ⟨stored, ?_, agrees read (reads ▸ List.mem_singleton_self read)⟩
    cases row with
    | error reason => cases ok
    | ok stored' => rw [here, Option.some.inj ok]
  cases e with
  | create name minted isTrusted => exact .inl ⟨fits, due.2⟩
  | delete id => cases due
  | rename id name isTrusted =>
    obtain ⟨read, reads, -, rfl, -, members⟩ := due
    obtain ⟨stored, here, agrees⟩ := found _ reads fits
    have same (m : DeviceId) : m ∈ stored.members ↔ m ∈ s.members := by
      rw [members, ← List.mem_toFinset, ← List.mem_toFinset]
      exact Finset.ext_iff.mp agrees m
    exact .inr ⟨stored, here, .inr ⟨name, isTrusted, rfl⟩, fun m mem => .inl ((same m).mp mem),
      fun m mem => .inl ((same m).mpr mem)⟩
  | addMember id m lookup =>
    obtain ⟨read, reads, rfl, -, rfl⟩ := due
    obtain ⟨stored, here, name, agrees⟩ := found _ reads fits
    refine .inr ⟨stored, here, .inl name.symm, fun other mem => .inl ?_, fun other mem => ?_⟩
    · by_cases own : other = m
      · exact List.mem_append_right _ (List.mem_singleton.mpr own)
      · exact List.mem_append_left _ ((mem_of_erase agrees own).mp mem)
    · by_cases own : other = m
      · exact .inr ⟨lookup, by rw [own]⟩
      · have before : other ∈ read.members :=
          (List.mem_append.mp mem).resolve_right fun last => own (List.mem_singleton.mp last)
        exact .inl ((mem_of_erase agrees own).mpr before)
  | removeMember id m =>
    obtain ⟨read, reads, rfl, rfl⟩ := due
    obtain ⟨stored, here, name, agrees⟩ := found _ reads fits
    refine .inr ⟨stored, here, .inl name.symm, fun other mem => ?_, fun other mem => .inl ?_⟩
    · by_cases own : other = m
      · exact .inr (by rw [own])
      · exact .inl (List.mem_filter.mpr ⟨(mem_of_erase agrees own).mp mem, decide_eq_true own⟩)
    · obtain ⟨before, own⟩ := List.mem_filter.mp mem
      exact (mem_of_erase agrees (of_decide_eq_true own)).mpr before

/-- After a write that fits, an edit still stands or is undone as it should be. -/
theorem Stands.put (stands : e.Stands rows) (due : e'.Writes own s) (fits : e'.Fits own rows[s.id]?)
    (alive : e.deletes ≠ some s.id) : e.Stands (rows.insert s.id (.ok s)) ∨ e'.Undoes e := by
  have changed := changes due fits
  cases e with
  | create => exact .inl trivial
  | delete id =>
    refine .inl ?_
    have apart : s.id ≠ id := fun same => alive (congrArg some same.symm)
    rw [Stands, SortedMap.get_insert, if_neg apart]
    exact stands
  | rename id name isTrusted =>
    obtain ⟨old, there, valid⟩ := stands
    by_cases same : s.id = id
    · subst same
      obtain ⟨none, -⟩ | ⟨stored, here, changes⟩ := changed
      · cases none.symm.trans there
      · cases here.symm.trans there
        rcases changes.name with kept | renamed
        · exact .inl ⟨s, by rw [SortedMap.get_insert, if_pos rfl], kept ▸ valid⟩
        · exact .inr (.inl renamed)
    · have left : (rows.insert s.id (.ok s))[id]? = some (.ok old) :=
        (SortedMap.get_insert ..).trans ((if_neg same).trans there)
      exact .inl ⟨old, left, valid⟩
  | addMember id m lookup =>
    obtain ⟨old, there, mem⟩ := stands
    by_cases same : s.id = id
    · subst same
      obtain ⟨none, -⟩ | ⟨stored, here, changes⟩ := changed
      · cases none.symm.trans there
      · cases here.symm.trans there
        rcases changes.kept m mem with kept | removed
        · exact .inl ⟨s, by rw [SortedMap.get_insert, if_pos rfl], kept⟩
        · exact .inr (.inl removed)
    · have left : (rows.insert s.id (.ok s))[id]? = some (.ok old) :=
        (SortedMap.get_insert ..).trans ((if_neg same).trans there)
      exact .inl ⟨old, left, mem⟩
  | removeMember id m =>
    by_cases same : s.id = id
    · subst same
      by_cases mem : m ∈ s.members
      · obtain ⟨-, empty⟩ | ⟨stored, here, changes⟩ := changed
        · rw [empty] at mem
          cases mem
        · exact .inr ((changes.new m mem).resolve_left (stands stored here))
      · refine .inl fun s' there => ?_
        rw [SortedMap.get_insert, if_pos rfl] at there
        cases there
        exact mem
    · refine .inl fun s' there => ?_
      rw [SortedMap.get_insert, if_neg same] at there
      exact stands s' there

/-- What an edit has written says what the edit says. -/
theorem stands_put (due : e.Writes own s) : e.Stands (rows.insert s.id (.ok s)) := by
  have here : (rows.insert s.id (Except.ok s))[s.id]? = some (.ok s) := by
    rw [SortedMap.get_insert, if_pos rfl]
  cases e with
  | create => trivial
  | delete => cases due
  | rename id name isTrusted =>
    obtain ⟨read, -, -, rfl, valid, -⟩ := due
    exact ⟨s, here, valid⟩
  | addMember id m lookup =>
    obtain ⟨read, -, rfl, -, rfl⟩ := due
    exact ⟨_, here, List.mem_append_right _ (List.mem_singleton_self m)⟩
  | removeMember id m =>
    obtain ⟨read, -, rfl, rfl⟩ := due
    intro s' there
    cases here.symm.trans there
    exact fun mem => of_decide_eq_true (List.mem_filter.mp mem).2 rfl

theorem Stands.erase (stands : e.Stands rows) (id : String) :
    e.Stands (rows.erase id) ∨ (Edit.delete id).Undoes e := by
  cases e with
  | create => exact .inl trivial
  | delete id' =>
    refine .inl ?_
    rw [Stands, SortedMap.get_erase]
    split
    · rfl
    · exact stands
  | rename id' name isTrusted =>
    obtain ⟨s, there, valid⟩ := stands
    by_cases same : id = id'
    · exact .inr (.inr (by rw [same]))
    · have left : (rows.erase id)[id']? = some (.ok s) := (SortedMap.get_erase ..).trans ((if_neg same).trans there)
      exact .inl ⟨s, left, valid⟩
  | addMember id' m lookup =>
    obtain ⟨s, there, mem⟩ := stands
    by_cases same : id = id'
    · exact .inr (.inr (by rw [same]))
    · have left : (rows.erase id)[id']? = some (.ok s) := (SortedMap.get_erase ..).trans ((if_neg same).trans there)
      exact .inl ⟨s, left, mem⟩
  | removeMember id' m =>
    refine .inl fun s there => ?_
    rw [SortedMap.get_erase] at there
    split at there
    · cases there
    · exact stands s there

end Edit

end PeerBeam.Spaces
