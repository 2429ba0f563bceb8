import PeerBeam.Chat.UpdateRuns

/-! What is shown of an offered file. The peer claims a name and a size, and the transfer says what
really lands; a landing waits for its row, is taken by whoever comes upon the row next, and only then
written. -/
namespace PeerBeam.Chat

/-- A file that is offered and sent: what the peer claims of it, and what lands. -/
structure Offer where
  peer : DeviceId
  ref : FileRef
  name : String
  size : Nat

inductive Task
  | claim
  | landing (expected : Direction)
  | history (peer : DeviceId)
  | get (peer : DeviceId) (id : String)
  | groupHistory (group : String)

inductive Finding
  | stored
  | landing (landing : Prog.Landing)
  | rows (recs : List ChatRecord)
  deriving DecidableEq

structure Work where
  now : Int
  task : Task

namespace Offer
variable (o : Offer)

def At (peer : DeviceId) (id : String) : Prop := peer = o.peer ∧ id = o.ref.id

instance (peer : DeviceId) (id : String) : Decidable (o.At peer id) :=
  inferInstanceAs (Decidable (_ ∧ _))

def claim (now : Int) : ChatRecord := .fileIn now o.peer o.ref

open Program (ret) in
def program (c : Chrono) (j : Work) : Prog Finding :=
  match j.task with
  | .claim => do
    Prog.append (o.claim j.now)
    ret .stored
  | .landing expected => do
    let landing ← Prog.setFileRowLanding c j.now o.peer o.ref.id expected o.name o.size
    ret (.landing landing)
  | .history peer => do
    let recs ← Prog.history c j.now peer
    ret (.rows recs)
  | .get peer id => do
    let row ← Prog.get c j.now peer id
    ret (.rows row.toList)
  | .groupHistory group => do
    let recs ← Prog.groupHistory c j.now group
    ret (.rows recs)

/-- The call has taken the landing of a file row, and has not written it. -/
def Carries (asked : List Heard) : Prop :=
  ∃ pre landing gone, asked = pre ++ [⟨.getLanding o.peer o.ref.id, .ok (some (some landing))⟩,
      ⟨.deleteLanding o.peer o.ref.id, .ok gone⟩] ∧
    ∀ old, lastSeen asked o.peer o.ref.id = some (some (some old)) → old.file.isSome

def InFlight (rec : ChatRecord) : Prop := rec.isSettleableFileRow .inn ∧ rec.file.isSome

def Bears (asked : List Heard) (rec : ChatRecord) : Prop :=
  Lands o.name o.size rec ∨ ∃ name size, Told asked o.peer o.ref.id name size ∧ Lands name size rec

/-- What is written of the file: the claim by who has not heard of a landing, or the landing. -/
inductive Puts (t : Task) (asked : List Heard) : ChatRecord → Prop
  | claim (now : Int) (own : t = .claim) (unseen : lastSeen asked o.peer o.ref.id = none)
      (unheard : ∀ name size, ¬ Told asked o.peer o.ref.id name size) : Puts t asked (o.claim now)
  | landed (now : Int) {name : String} {size : Nat} (own : t = .claim)
      (unseen : lastSeen asked o.peer o.ref.id = none)
      (told : Told asked o.peer o.ref.id name size) : Puts t asked ((o.claim now).land name size)
  | corrected {old rec : ChatRecord}
      (seen : lastSeen asked o.peer o.ref.id = some (some (some old)))
      (flies : InFlight old → InFlight rec) (bears : o.Bears asked rec) : Puts t asked rec

/-- Rows stand under their keys. One who reads late finds the file in flight, and the landing parked
or written. -/
def hears (late : Prop) (asked : List Heard) (call : Call) (r : Except CallError call.Answer) : Prop :=
  match call, r with
  | .getRow peer id, .ok row => ∀ rec, row = some (some rec) → (rec.peerId = peer ∧ rec.id = id) ∧
      (late → o.At peer id → InFlight rec)
  | .listRows peer, .ok rows => (rows.Pairwise fun a b => a.1 ≠ b.1) ∧
      ∀ id rec, (id, some rec) ∈ rows → (rec.peerId = peer ∧ rec.id = id) ∧
        (late → o.At peer id → InFlight rec)
  | .getLanding peer id, r => late → o.At peer id → r = .ok (some (some (o.name, o.size))) ∨
      r = .ok none ∧ ∀ old, lastSeen asked peer id = some (some (some old)) → Lands o.name o.size old
  | _, _ => True

/-- A landing that has been taken is written at once; one is looked for by who has seen the row. -/
def does (t : Task) (asked : List Heard) (call : Call) : Prop :=
  (o.Carries asked → ∃ rec, call = .putRow rec ∧ o.At rec.peerId rec.id) ∧
    match call with
    | .getLanding peer id => o.At peer id →
        t = .claim ∨ ∃ old, lastSeen asked peer id = some (some (some old))
    | .deleteLanding peer id => o.At peer id →
        (t = .claim ∨ ∃ old, lastSeen asked peer id = some (some (some old))) ∧
          ∃ pre blob, asked = pre ++ [⟨.getLanding peer id, .ok (some blob)⟩]
    | .putRow rec => o.At rec.peerId rec.id → o.Puts t asked rec
    | .putLanding peer id name size => o.At peer id →
        (∃ expected, t = .landing expected) ∧ name = o.name ∧ size = o.size
    | .deleteRow _ _ => False
    | _ => True

def returns (late : Prop) (t : Task) (f : Finding) (asked : List Heard) : Prop :=
  ¬ o.Carries asked ∧
    match t, f with
    | .claim, .stored => ∃ pre rec, asked = pre ++ [⟨.putRow rec, .ok ()⟩] ∧
        o.At rec.peerId rec.id ∧ lastSeen pre o.peer o.ref.id = none
    | .landing _, .landing .parked =>
      ∃ pre, asked = pre ++ [⟨.putLanding o.peer o.ref.id o.name o.size, .ok ()⟩]
    | .landing _, .landing .applied => ∃ pre rec, asked = pre ++ [⟨.putRow rec, .ok ()⟩] ∧
        o.At rec.peerId rec.id ∧ o.Bears pre rec
    | _, .rows recs => late → ∀ rec ∈ recs, o.At rec.peerId rec.id → Lands o.name o.size rec
    | _, _ => True

variable {o} {late : Prop} {t : Task} {asked asked' : List Heard}

theorem not_carries_push {a : Heard}
    (other : ∀ gone, a ≠ ⟨.deleteLanding o.peer o.ref.id, .ok gone⟩) : ¬ o.Carries (asked ++ [a]) := by
  rintro ⟨pre, landing, gone, split, _⟩
  refine other gone ?_
  have last := congrArg List.getLast? split
  simp only [List.getLast?_append, List.getLast?_singleton, List.getLast?_cons_cons] at last
  exact Option.some.inj last

structure Takes (o : Offer) (late : Prop) (peer : DeviceId) (id : String) (asked asked' : List Heard)
    (landing : Option (String × Nat)) : Prop where
  quiet : Prog.Quiet asked asked'
  carries : o.Carries asked' → o.At peer id ∧ landing.isSome
  told : ∀ name size, landing = some (name, size) → Told asked' peer id name size
  fresh : ∀ name size, Told asked' o.peer o.ref.id name size →
    Told asked o.peer o.ref.id name size ∨ o.At peer id ∧ landing = some (name, size)
  late : late → o.At peer id → landing = some (o.name, o.size) ∨ landing = none ∧
    ∀ old, lastSeen asked peer id = some (some (some old)) → Lands o.name o.size old

variable (o late t) in
abbrev Acts {α : Type} (p : Prog α) (post : α → List Heard → Prop) (asked : List Heard) : Prop :=
  p.wp (Pool.Hears (o.hears late)) (o.does t) post (fun _ asked' => ¬ o.Carries asked') asked

section
variable {α β : Type} {post : α → List Heard → Prop}

theorem acts_bind {p : Prog α} {f : α → Prog β} {last : β → List Heard → Prop}
    (h : o.Acts late t p post asked)
    (rest : ∀ a asked', post a asked' → o.Acts late t (f a) last asked') :
    o.Acts late t (p >>= f) last asked :=
  Program.wp_bind.mpr (Program.wp_mono h rest fun _ _ h => h)

end

theorem acts_take {peer : DeviceId} {id : String} (calm : ¬ o.Carries asked)
    (may : o.At peer id → t = .claim ∨ ∃ old, lastSeen asked peer id = some (some (some old))) :
    (Prog.takePendingLanding peer id).wp (Pool.Hears (o.hears late)) (o.does t)
      (fun landing asked' => Takes o late peer id asked asked' landing)
      (fun _ asked' => Prog.Quiet asked asked' ∧ ¬ o.Carries asked' ∧ (late → ¬ o.At peer id)) asked := by
  have quiet {a : Heard} {before : List Heard} (h : ∀ peer id seen, see peer id seen a = seen) :
      Prog.Quiet before (before ++ [a]) := Prog.quiet_push h
  have read (r : Except CallError (Option (Option (String × Nat)))) :
      ¬ o.Carries (asked ++ [⟨.getLanding peer id, r⟩]) := not_carries_push fun _ same => by cases same
  rw [Prog.takePendingLanding, Program.wp_bind]
  refine Program.wp_ask.mpr ⟨⟨fun held => absurd held calm, may⟩, ?_, ?_⟩
  · rintro blob _ ⟨heard, rfl⟩
    cases blob with
    | none =>
      refine ⟨quiet fun _ _ _ => rfl, fun held => absurd held (read _), ?_, ?_, fun is here => ?_⟩
      · intro name size none
        cases none
      · intro name size told
        rcases List.mem_append.mp told with told | mem
        · exact .inl told
        · cases List.mem_singleton.mp mem
      · rcases heard is here with found | ⟨-, lands⟩
        · cases found
        · exact .inr ⟨rfl, lands⟩
    | some blob =>
      have may : o.does t (asked ++ [⟨.getLanding peer id, .ok (some blob)⟩]) (.deleteLanding peer id) :=
        ⟨fun held => absurd held (read _), fun here => ⟨(may here).imp_right (Exists.imp fun _ seen =>
          ((quiet fun _ _ _ => rfl).2 ..).trans seen), asked, blob, rfl⟩⟩
      have taken (r : Except CallError Bool) : Takes o late peer id asked
          (asked ++ [⟨.getLanding peer id, .ok (some blob)⟩] ++ [⟨.deleteLanding peer id, r⟩]) blob := by
        refine ⟨(quiet fun _ _ _ => rfl).trans (quiet fun _ _ _ => rfl), ?_, ?_, ?_, fun is here => ?_⟩
        · rintro ⟨pre, landing, gone, split, _⟩
          rw [List.append_assoc] at split
          have last := List.append_inj_right' split rfl
          injection last with first _
          cases first
          exact ⟨⟨rfl, rfl⟩, rfl⟩
        · rintro name size rfl
          exact List.mem_append_left _ (List.mem_append_right _ List.mem_cons_self)
        · intro name size told
          rcases List.mem_append.mp told with told | mem
          · rcases List.mem_append.mp told with told | mem
            · exact .inl told
            · cases List.mem_singleton.mp mem
              exact .inr ⟨⟨rfl, rfl⟩, rfl⟩
          · cases List.mem_singleton.mp mem
        · rcases heard is here with found | ⟨none, -⟩
          · cases found
            exact .inl rfl
          · cases none
      refine Program.wp_bind.mpr (Program.wp_attempt.mpr (Program.wp_ask.mpr ⟨may, ?_, ?_⟩))
      · rintro gone _ ⟨-, rfl⟩
        exact taken _
      · rintro e _ ⟨-, rfl⟩
        exact taken _
  · rintro e _ ⟨heard, rfl⟩
    refine ⟨quiet fun _ _ _ => rfl, read _, fun is here => ?_⟩
    rcases heard is here with found | ⟨none, -⟩
    · cases found
    · cases none

/-- A call that looks, and leaves the landing alone. -/
theorem acts_ask {call : Call} (post : call.Answer → List Heard → Prop) (calm : ¬ o.Carries asked)
    (other : ∀ peer id, call ≠ .deleteLanding peer id)
    (needs : ¬ o.Carries asked → o.does t asked call)
    (heard : ∀ a, o.hears late asked call (.ok a) → ¬ o.Carries (asked ++ [⟨call, .ok a⟩]) →
      post a (asked ++ [⟨call, .ok a⟩])) : o.Acts late t (Prog.ask call) post asked := by
  have after (r : Except CallError call.Answer) : ¬ o.Carries (asked ++ [⟨call, r⟩]) := by
    refine not_carries_push fun gone same => other o.peer o.ref.id ?_
    injection same
  refine Program.wp_ask.mpr ⟨needs calm, ?_, ?_⟩
  · rintro a _ ⟨h, rfl⟩
    exact heard a h (after _)
  · rintro e _ ⟨-, rfl⟩
    exact after _

theorem acts_retention (peer : DeviceId) (calm : ¬ o.Carries asked) :
    o.Acts late t (Prog.retention peer)
      (fun _ asked' => Prog.Quiet asked asked' ∧ ¬ o.Carries asked') asked := by
  refine acts_bind (acts_ask (fun _ asked' => Prog.Quiet asked asked' ∧ ¬ o.Carries asked') calm
    (fun _ _ => nofun) (fun calm => ⟨fun held => absurd held calm, trivial⟩)
    fun _ _ calm => ⟨Prog.quiet_push fun _ _ _ => rfl, calm⟩) ?_
  rintro (_ | _ | r) asked' ⟨quiet, calm⟩
  · exact ⟨quiet, calm⟩
  · exact calm
  · exact ⟨quiet, calm⟩

theorem acts_write {rec : ChatRecord} (puts : o.At rec.peerId rec.id → o.Puts t asked rec)
    (clear : ¬ o.At rec.peerId rec.id → ¬ o.Carries asked) :
    (Prog.write rec).wp (Pool.Hears (o.hears late)) (o.does t)
      (fun _ asked' => asked' = asked ++ [⟨.putRow rec, .ok ()⟩])
      (fun _ asked' => Prog.Quiet asked asked' ∧ ¬ o.Carries asked') asked := by
  have needs : o.does t asked (.putRow rec) := by
    refine ⟨fun held => ⟨rec, rfl, ?_⟩, puts⟩
    by_contra away
    exact clear away held
  refine Program.wp_ask.mpr ⟨needs, ?_, ?_⟩
  · rintro ⟨⟩ _ ⟨-, rfl⟩
    rfl
  · rintro e _ ⟨-, rfl⟩
    exact ⟨Prog.quiet_push fun _ _ _ => rfl, not_carries_push fun _ => nofun⟩

/-- A row of the file is written as it is given, or with what lands. -/
theorem acts_append {b : ChatRecord} (here : o.At b.peerId b.id) (calm : ¬ o.Carries asked)
    (may : t = .claim ∨ ∃ old, lastSeen asked b.peerId b.id = some (some (some old)))
    (puts : ∀ pre, Prog.Quiet asked pre → (∀ name size, Told pre o.peer o.ref.id name size →
      Told asked o.peer o.ref.id name size) → o.Puts t pre b)
    (landed : ∀ pre name size, Prog.Quiet asked pre → Told pre o.peer o.ref.id name size →
      b.isSettleableFileRow .inn → o.Puts t pre (b.land name size)) :
    o.Acts late t (Prog.append b) (fun _ asked' => ∃ pre new,
      asked' = pre ++ [⟨.putRow new, .ok ()⟩] ∧ Prog.Quiet asked pre ∧ o.At new.peerId new.id ∧
        (new = b ∨ ∃ name size, Told pre o.peer o.ref.id name size ∧ new = b.land name size)) asked := by
  have write {pre : List Heard} {new : ChatRecord} (quiet : Prog.Quiet asked pre)
      (own : o.At new.peerId new.id) (puts : o.Puts t pre new)
      (how : new = b ∨ ∃ name size, Told pre o.peer o.ref.id name size ∧ new = b.land name size) :
      o.Acts late t (Prog.write new) (fun _ asked' => ∃ pre new,
        asked' = pre ++ [⟨.putRow new, .ok ()⟩] ∧ Prog.Quiet asked pre ∧ o.At new.peerId new.id ∧
          (new = b ∨ ∃ name size, Told pre o.peer o.ref.id name size ∧ new = b.land name size)) pre :=
    Program.wp_mono (acts_write (fun _ => puts) fun away => absurd own away)
      (fun _ _ same => ⟨pre, new, same, quiet, own, how⟩) fun _ _ h => h.2
  rw [Prog.append]
  split
  next live =>
    refine acts_bind (Program.wp_mono (acts_take calm fun _ => may) (fun _ _ h => h) fun _ _ h => h.2.1) ?_
    rintro (_ | ⟨name, size⟩) pre took
    · refine write took.quiet here (puts pre took.quiet fun name size told => ?_) (.inl rfl)
      rcases took.fresh name size told with old | ⟨_, none⟩
      · exact old
      · cases none
    · have told := took.told name size rfl
      rw [here.1, here.2] at told
      exact write took.quiet here (landed pre name size took.quiet told live) (.inr ⟨name, size, told, rfl⟩)
  next dead => exact write (.refl asked) here (puts asked (.refl asked) fun _ _ h => h) (.inl rfl)

theorem land_flies {rec : ChatRecord} {name : String} {size : Nat} :
    InFlight (rec.land name size) ↔ InFlight rec := by
  rw [InFlight, InFlight, ChatRecord.land, Option.isSome_map]
  rfl

theorem land_lands {rec : ChatRecord} (isFile : rec.file.isSome) (name : String) (size : Nat) :
    Lands name size (rec.land name size) := by
  obtain ⟨file, isFile⟩ := Option.isSome_iff_exists.mp isFile
  exact ⟨_, land_file isFile name size, rfl, rfl⟩

/-- What a read makes of a row it has found: who reads late shows what lands. -/
structure Reads (o : Offer) (late : Prop) (asked asked' : List Heard) (rec rec' : ChatRecord) : Prop where
  calm : ¬ o.Carries asked'
  own : rec'.peerId = rec.peerId
  key : rec'.id = rec.id
  seen : ∃ old, lastSeen asked' rec.peerId rec.id = some (some (some old)) ∧ (InFlight old → InFlight rec')
  rest : ∀ peer id, ¬ (rec.peerId = peer ∧ rec.id = id) → lastSeen asked' peer id = lastSeen asked peer id
  lands : late → o.At rec.peerId rec.id → InFlight rec → Lands o.name o.size rec'

theorem acts_withLanding {rec : ChatRecord} (calm : ¬ o.Carries asked)
    (last : lastSeen asked rec.peerId rec.id = some (some (some rec))) :
    o.Acts late t (Prog.withLanding rec) (fun rec' asked' => Reads o late asked asked' rec rec') asked := by
  rw [Prog.withLanding]
  split
  next live =>
    have may : o.At rec.peerId rec.id →
        t = .claim ∨ ∃ old, lastSeen asked rec.peerId rec.id = some (some (some old)) :=
      fun _ => .inr ⟨rec, last⟩
    refine Program.wp_bind.mpr (Program.wp_attempt.mpr (Program.wp_mono (acts_take calm may) ?_ ?_))
    · rintro (_ | ⟨name, size⟩) pre took
      · refine ⟨fun held => ?_, rfl, rfl, ⟨rec, (took.quiet.2 ..).trans last, fun h => h⟩,
          fun peer id _ => took.quiet.2 peer id, fun is here _ => ?_⟩
        · cases (took.carries held).2
        · rcases took.late is here with none | ⟨-, lands⟩
          · cases none
          · exact lands rec last
      · have told := took.told name size rfl
        show o.Acts late t (if _ then _ else _) _ pre
        split
        next isFile =>
          have lands : late → o.At rec.peerId rec.id → InFlight rec →
              Lands o.name o.size (rec.land name size) := by
            intro is here _
            rcases took.late is here with found | ⟨none, -⟩
            · cases found
              exact land_lands isFile _ _
            · cases none
          refine Program.wp_bind.mpr (Program.wp_attempt.mpr (Program.wp_mono (acts_write ?_ ?_) ?_ ?_))
          · rintro ⟨own, key⟩
            have told' : Told pre o.peer o.ref.id name size := own ▸ key ▸ told
            have seen : lastSeen pre o.peer o.ref.id = some (some (some rec)) := by
              rw [← own, ← key]
              exact (took.quiet.2 ..).trans last
            exact .corrected seen land_flies.mpr (.inr ⟨name, size, told', land_lands isFile ..⟩)
          · exact fun away held => away (took.carries held).1
          · rintro _ _ rfl
            refine ⟨not_carries_push (by rintro _ ⟨⟩), rfl, rfl, ⟨rec.land name size, ?_, fun h => h⟩,
              fun peer id other => ?_, lands⟩
            · rw [lastSeen_push]
              exact if_pos ⟨rfl, rfl⟩
            · rw [lastSeen_push, ← took.quiet.2]
              exact if_neg other
          · rintro e pre' ⟨quiet, calm⟩
            have both := took.quiet.trans quiet
            exact ⟨calm, rfl, rfl, ⟨rec, (both.2 ..).trans last, land_flies.mpr⟩,
              fun peer id _ => both.2 peer id, lands⟩
        next noFile =>
          refine ⟨fun held => ?_, rfl, rfl, ⟨rec, (took.quiet.2 ..).trans last, fun h => h⟩,
            fun peer id _ => took.quiet.2 peer id, fun _ _ flies => absurd flies.2 noFile⟩
          obtain ⟨own, key⟩ := (took.carries held).1
          obtain ⟨_, _, _, _, isFile⟩ := held
          refine noFile (isFile rec ?_)
          rw [← own, ← key]
          exact (took.quiet.2 ..).trans last
    · rintro e pre ⟨quiet, calm, away⟩
      exact ⟨calm, rfl, rfl, ⟨rec, (quiet.2 ..).trans last, fun h => h⟩, fun peer id _ => quiet.2 peer id,
        fun is here _ => absurd here (away is)⟩
  next dead =>
    exact ⟨calm, rfl, rfl, ⟨rec, last, fun h => h⟩, fun _ _ _ => rfl, fun _ _ flies => absurd flies.1 dead⟩

section
variable (c : Chrono) (now : Int)

theorem acts_get (peer : DeviceId) (id : String) (calm : ¬ o.Carries asked) :
    o.Acts late t (Prog.get c now peer id) (fun row asked' => ¬ o.Carries asked' ∧ ∀ rec, row = some rec →
      rec.peerId = peer ∧ rec.id = id ∧ (∃ old, lastSeen asked' peer id = some (some (some old)) ∧
        (InFlight old → InFlight rec)) ∧ (late → o.At peer id → Lands o.name o.size rec)) asked := by
  have look : o.Acts late t (Prog.ask (.getRow peer id)) (fun row asked' => ¬ o.Carries asked' ∧
      lastSeen asked' peer id = some row ∧ ∀ rec, row = some (some rec) →
        (rec.peerId = peer ∧ rec.id = id) ∧ (late → o.At peer id → InFlight rec)) asked := by
    refine acts_ask _ calm (fun _ _ => nofun) (fun calm => ⟨fun held => absurd held calm, trivial⟩) ?_
    refine fun row heard calm => ⟨calm, ?_, heard⟩
    rw [lastSeen_push]
    exact if_pos ⟨rfl, rfl⟩
  refine acts_bind look ?_
  rintro (_ | _ | rec) read ⟨calm, seen, found⟩
  · exact ⟨calm, fun _ none => nomatch none⟩
  · exact calm
  · obtain ⟨⟨rfl, rfl⟩, flies⟩ := found rec rfl
    refine acts_bind (p := Prog.retention rec.peerId) (acts_retention rec.peerId calm) ?_
    rintro r pre ⟨quiet, calm⟩
    split
    · exact ⟨calm, fun _ none => nomatch none⟩
    · refine acts_bind (acts_withLanding calm ((quiet.2 ..).trans seen)) ?_
      rintro rec' asked' read
      refine ⟨read.calm, ?_⟩
      rintro _ ⟨⟩
      exact ⟨read.own, read.key, read.seen, fun is here => read.lands is here (flies is here)⟩

def Listing (o : Offer) (late : Prop) (peer : DeviceId) (asked : List Heard)
    (rows : List (String × Option ChatRecord)) : Prop :=
  (rows.Pairwise fun a b => a.1 ≠ b.1) ∧ ∀ id rec, (id, some rec) ∈ rows →
    (rec.peerId = peer ∧ rec.id = id) ∧ lastSeen asked peer id = some (some (some rec)) ∧
      (late → o.At peer id → InFlight rec)

theorem acts_listRows (peer : DeviceId) (calm : ¬ o.Carries asked) :
    o.Acts late t (Prog.ask (.listRows peer))
      (fun rows asked' => ¬ o.Carries asked' ∧ Listing o late peer asked' rows) asked := by
  refine acts_ask _ calm (fun _ _ => nofun) (fun calm => ⟨fun held => absurd held calm, trivial⟩) ?_
  rintro rows ⟨differ, found⟩ calm
  refine ⟨calm, differ, fun id rec mem => ⟨(found id rec mem).1, ?_, (found id rec mem).2⟩⟩
  rw [lastSeen_push]
  exact (if_pos rfl).trans (congrArg some ((SortedMap.lookup_eq_some_iff differ).mpr mem))

theorem Listing.quiet {peer : DeviceId} {rows : List (String × Option ChatRecord)}
    (h : Listing o late peer asked rows) (same : Prog.Quiet asked asked') :
    Listing o late peer asked' rows :=
  ⟨h.1, fun id rec mem => ⟨(h.2 id rec mem).1, (same.2 ..).trans (h.2 id rec mem).2.1,
    (h.2 id rec mem).2.2⟩⟩

theorem Listing.tail {peer : DeviceId} {row : String × Option ChatRecord}
    {rows : List (String × Option ChatRecord)} (h : Listing o late peer asked (row :: rows)) :
    Listing o late peer asked rows :=
  ⟨(List.pairwise_cons.mp h.1).2, fun id rec mem => h.2 id rec (List.mem_cons_of_mem _ mem)⟩

/-- Reading the first of the rows leaves the others as they were seen. -/
theorem Listing.read {peer : DeviceId} {key : String} {rec rec' : ChatRecord}
    {rows : List (String × Option ChatRecord)} (h : Listing o late peer asked ((key, some rec) :: rows))
    (read : Reads o late asked asked' rec rec') : Listing o late peer asked' rows := by
  refine ⟨h.tail.1, fun id other mem => ?_⟩
  obtain ⟨own, seen, flies⟩ := h.tail.2 id other mem
  refine ⟨own, ?_, flies⟩
  rw [read.rest]
  · exact seen
  · rintro ⟨-, rfl⟩
    refine (List.pairwise_cons.mp h.1).1 _ mem ?_
    exact (h.2 key rec List.mem_cons_self).1.2.symm

theorem Listing.lands {peer : DeviceId} {key : String} {rec rec' : ChatRecord}
    {rows : List (String × Option ChatRecord)} (h : Listing o late peer asked ((key, some rec) :: rows))
    (read : Reads o late asked asked' rec rec') (is : late) (here : o.At rec'.peerId rec'.id) :
    Lands o.name o.size rec' := by
  obtain ⟨⟨rfl, rfl⟩, -, flies⟩ := h.2 key rec List.mem_cons_self
  rw [read.own, read.key] at here
  exact read.lands is here (flies is here)

theorem acts_shown (peer : DeviceId) (includeGroups : Bool) (r : Retention)
    {rows : List (String × Option ChatRecord)} (calm : ¬ o.Carries asked)
    (h : Listing o late peer asked rows) :
    o.Acts late t (Prog.shown c now includeGroups r rows) (fun recs asked' => ¬ o.Carries asked' ∧
      (late → ∀ rec ∈ recs, o.At rec.peerId rec.id → Lands o.name o.size rec)) asked := by
  induction rows generalizing asked with
  | nil => exact ⟨calm, fun _ _ mem => absurd mem List.not_mem_nil⟩
  | cons row rows ih =>
    obtain ⟨key, _ | rec⟩ := row
    · exact ih calm h.tail
    · rw [Prog.shown]
      split
      · exact ih calm h.tail
      · split
        · exact ih calm h.tail
        · obtain ⟨⟨rfl, rfl⟩, seen, -⟩ := h.2 key rec List.mem_cons_self
          refine acts_bind (acts_withLanding calm seen) fun rec' pre read => ?_
          refine acts_bind (ih read.calm (h.read read)) ?_
          rintro recs asked' ⟨calm, lands⟩
          refine ⟨calm, fun is rec'' mem here => ?_⟩
          rcases List.mem_cons.mp mem with rfl | mem
          · exact h.lands read is here
          · exact lands is rec'' mem here

theorem acts_history (peer : DeviceId) (calm : ¬ o.Carries asked) :
    o.Acts late t (Prog.history c now peer) (fun recs asked' => ¬ o.Carries asked' ∧
      (late → ∀ rec ∈ recs, o.At rec.peerId rec.id → Lands o.name o.size rec)) asked := by
  refine acts_bind (acts_listRows peer calm) ?_
  rintro rows read ⟨calm, listing⟩
  refine acts_bind (acts_retention peer calm) ?_
  rintro r pre ⟨quiet, calm⟩
  exact acts_shown c now peer false r calm (listing.quiet quiet)

theorem acts_gather (group : String) (r : Retention) (peer : DeviceId)
    {rows : List (String × Option ChatRecord)} {g : List String × List (DeviceId × ChatRecord)}
    (calm : ¬ o.Carries asked) (h : Listing o late peer asked rows)
    (lands : late → ∀ x ∈ g.2, o.At x.2.peerId x.2.id → Lands o.name o.size x.2) :
    o.Acts late t (Prog.gather c now group r peer rows g) (fun g asked' => ¬ o.Carries asked' ∧
      (late → ∀ x ∈ g.2, o.At x.2.peerId x.2.id → Lands o.name o.size x.2)) asked := by
  induction rows generalizing asked g with
  | nil => exact ⟨calm, lands⟩
  | cons row rows ih =>
    obtain ⟨key, _ | rec⟩ := row
    · exact ih calm h.tail lands
    · rw [Prog.gather]
      split
      · exact ih calm h.tail lands
      · split
        · exact ih calm h.tail lands
        · split
          · exact ih calm h.tail lands
          · obtain ⟨⟨rfl, rfl⟩, seen, -⟩ := h.2 key rec List.mem_cons_self
            refine acts_bind (acts_withLanding calm seen) fun rec' pre read => ?_
            refine ih read.calm (h.read read) fun is x mem here => ?_
            rcases List.mem_append.mp mem with mem | mem
            · exact lands is x mem here
            · cases List.mem_singleton.mp mem
              exact h.lands read is here

theorem acts_gatherFrom (group : String) {peers : List DeviceId}
    {g : List String × List (DeviceId × ChatRecord)} (calm : ¬ o.Carries asked)
    (lands : late → ∀ x ∈ g.2, o.At x.2.peerId x.2.id → Lands o.name o.size x.2) :
    o.Acts late t (Prog.gatherFrom c now group peers g) (fun g asked' => ¬ o.Carries asked' ∧
      (late → ∀ x ∈ g.2, o.At x.2.peerId x.2.id → Lands o.name o.size x.2)) asked := by
  induction peers generalizing asked g with
  | nil => exact ⟨calm, lands⟩
  | cons peer peers ih =>
    refine acts_bind (acts_retention peer calm) ?_
    rintro r pre ⟨-, calm⟩
    refine acts_bind (acts_listRows peer calm) ?_
    rintro rows read ⟨calm, listing⟩
    refine acts_bind (acts_gather c now group r peer calm listing lands) ?_
    rintro g' asked' ⟨calm, lands⟩
    exact ih calm lands

theorem acts_groupHistory (group : String) (calm : ¬ o.Carries asked) :
    o.Acts late t (Prog.groupHistory c now group) (fun recs asked' => ¬ o.Carries asked' ∧
      (late → ∀ rec ∈ recs, o.At rec.peerId rec.id → Lands o.name o.size rec)) asked := by
  refine acts_bind (acts_ask (fun _ asked' => ¬ o.Carries asked') calm (fun _ _ => nofun)
    (fun calm => ⟨fun held => absurd held calm, trivial⟩) fun _ _ calm => calm) fun peers pre calm => ?_
  refine acts_bind (acts_gatherFrom c now group calm fun _ _ mem => absurd mem List.not_mem_nil) ?_
  rintro g asked' ⟨calm, lands⟩
  refine ⟨calm, fun is rec mem here => ?_⟩
  obtain ⟨x, sorted, rfl⟩ := List.mem_map.mp mem
  exact lands is x ((List.mergeSort_perm ..).mem_iff.mp sorted) here

theorem acts_setFileRowLanding {expected : Direction} (job : t = .landing expected)
    (calm : ¬ o.Carries asked) :
    o.Acts late t (Prog.setFileRowLanding c now o.peer o.ref.id expected o.name o.size)
      (fun landing asked' => o.returns late t (.landing landing) asked') asked := by
  subst job
  rw [Prog.setFileRowLanding]
  split
  · exact ⟨calm, trivial⟩
  · refine acts_bind (acts_get c now o.peer o.ref.id calm) ?_
    rintro (_ | rec) pre ⟨calm, found⟩
    · refine acts_bind (acts_ask (fun _ asked' => ¬ o.Carries asked' ∧
          asked' = pre ++ [⟨.putLanding o.peer o.ref.id o.name o.size, .ok ()⟩]) calm
        (by rintro _ _ ⟨⟩) (fun calm => ⟨fun held => absurd held calm, fun _ => ⟨⟨_, rfl⟩, rfl, rfl⟩⟩)
        fun _ _ calm => ⟨calm, rfl⟩) ?_
      rintro _ _ ⟨calm, rfl⟩
      exact ⟨calm, pre, rfl⟩
    · obtain ⟨own, key, ⟨old, seen, flies⟩, -⟩ := found rec rfl
      show o.Acts late _ (if _ then _ else _) _ pre
      split
      next pass =>
        have isFile := (Bool.and_eq_true_iff.mp pass).2
        have here : o.At (rec.land o.name o.size).peerId (rec.land o.name o.size).id := ⟨own, key⟩
        have landed (name : String) (size : Nat) :
            Lands name size ((rec.land o.name o.size).land name size) := by
          refine land_lands ?_ name size
          exact Option.isSome_map.trans isFile
        refine acts_bind (acts_append here calm (.inr ⟨old, ?_⟩) (fun asked' quiet _ => ?_)
          fun asked' name size quiet told _ => ?_) ?_
        · rw [here.1, here.2]
          exact seen
        · exact .corrected ((quiet.2 ..).trans seen) (fun h => land_flies.mpr (flies h))
            (.inl (land_lands isFile ..))
        · exact .corrected ((quiet.2 ..).trans seen) (fun h => land_flies.mpr (land_flies.mpr (flies h)))
            (.inr ⟨name, size, told, landed name size⟩)
        · rintro _ _ ⟨asked', new, rfl, -, own, how⟩
          refine ⟨not_carries_push (by rintro _ ⟨⟩), asked', new, rfl, own, ?_⟩
          rcases how with rfl | ⟨name, size, told, rfl⟩
          · exact .inl (land_lands isFile ..)
          · exact .inr ⟨name, size, told, landed name size⟩
      next => exact ⟨calm, trivial⟩

/-- What every task does, and what it knows when it returns. -/
theorem acts_program (j : Work) (t : Task) (job : j.task = t) :
    o.Acts late t (o.program c j) (fun f asked => o.returns late t f asked) [] := by
  obtain ⟨now, _⟩ := j
  subst job
  have calm : ¬ o.Carries [] := by
    rintro ⟨pre, landing, gone, split, _⟩
    cases pre <;> cases split
  have ended {recs : List ChatRecord} {asked' : List Heard} (t : Task)
      (h : ¬ o.Carries asked' ∧
        (late → ∀ rec ∈ recs, o.At rec.peerId rec.id → Lands o.name o.size rec)) :
      o.returns late t (.rows recs) asked' := by
    cases t <;> exact h
  cases ‹Task› with
  | claim =>
    refine acts_bind (acts_append (b := o.claim now) ⟨rfl, rfl⟩ calm (.inl rfl)
      (fun pre quiet old => ?_) fun pre name size quiet told _ => ?_) ?_
    · refine .claim now rfl (quiet.2 ..) fun name size told => ?_
      exact absurd (old name size told) List.not_mem_nil
    · exact .landed now rfl (quiet.2 ..) told
    · rintro _ _ ⟨pre, new, rfl, quiet, here, _⟩
      exact ⟨not_carries_push fun _ => nofun, pre, new, rfl, here, quiet.2 ..⟩
  | landing expected =>
    exact acts_bind (acts_setFileRowLanding c now rfl calm) fun _ _ h => h
  | history peer =>
    exact acts_bind (acts_history c now peer calm) fun recs asked' h => ended (.history peer) h
  | get peer id =>
    refine acts_bind (acts_get c now peer id calm) ?_
    rintro row asked' ⟨calm, found⟩
    refine ended (.get peer id) ⟨calm, fun is rec mem here => ?_⟩
    obtain ⟨own, key, -, lands⟩ := found rec (Option.mem_toList.mp mem)
    exact lands is (own ▸ key ▸ here)
  | groupHistory group =>
    exact acts_bind (acts_groupHistory c now group calm) fun recs asked' h => ended (.groupHistory group) h

end

abbrev Desk (ι : Type) := Pool Disk ι Call Call.Answer CallError Finding

section
variable {ι : Type} [DecidableEq ι]

variable (o) in
def begun (c : Chrono) (jobs : ι → Work) (d : Disk) : Desk ι := .start d fun i => o.program c (jobs i)

variable (o) in
def row (w : Desk ι) : Option (Option ChatRecord) := (w.state.store.rows o.peer)[o.ref.id]?

variable (o) in
def parked (w : Desk ι) : Option (Option (String × Nat)) := w.state.store.landings o.peer o.ref.id

variable (o) in
/-- Who looks for the landing is told, of the transfer's alone, while the row is as it was last seen
and nobody else has taken it. Who has taken it writes the row, and the claim is written where no row
stands. -/
def Fair (w : Desk ι) (turn : Turn ι CallError) : Prop :=
  ∀ call, w.next turn.thread = some call →
    match call with
    | .getLanding peer id => o.At peer id → turn.failure = none ∧
        (o.parked w = none ∨ o.parked w = some (some (o.name, o.size))) ∧
        (∀ seen, lastSeen (w.own turn.thread) peer id = some seen → o.row w = seen) ∧
        ∀ j, j ≠ turn.thread → ¬ o.Carries (w.own j)
    | .putRow rec => o.At rec.peerId rec.id →
        (o.Carries (w.own turn.thread) → turn.failure = none) ∧
        (lastSeen (w.own turn.thread) rec.peerId rec.id = none → turn.failure = none → o.row w = none)
    | _ => True

/-- One thread stores the claim, one tells of the landing, and all others read. -/
structure Roles (jobs : ι → Work) (a l : ι) : Prop where
  claims : ∀ i, (jobs i).task = .claim ↔ i = a
  lands : ∀ i, (∃ expected, (jobs i).task = .landing expected) ↔ i = l

def Landed (w : Desk ι) (l : ι) : Prop :=
  w.threads l = .ret (.landing .parked) ∨ w.threads l = .ret (.landing .applied)

variable (o) in
/-- What holds all along, of a file whose claim is stored by `a` and whose landing is told by `l`. -/
structure Settling (jobs : ι → Work) (a l : ι) (late : ι → Prop) (w : Desk ι) : Prop where
  keeps : w.Keeps (fun i => o.hears (late i)) (fun i => o.does (jobs i).task)
    (fun i => o.returns (late i) (jobs i).task) fun _ _ asked => ¬ o.Carries asked
  keyed : w.state.store.WellKeyed
  heard : ∀ i found, ⟨.getLanding o.peer o.ref.id, .ok (some found)⟩ ∈ w.own i →
    found = some (o.name, o.size)
  row : w.threads a = .ret .stored → ∃ rec, o.row w = some (some rec) ∧ InFlight rec
  seen : ∀ i rec, lastSeen (w.own i) o.peer o.ref.id = some (some (some rec)) →
    o.row w ≠ none ∧ (w.threads a = .ret .stored → InFlight rec)
  parked : w.threads l = .ret (.landing .parked) → o.row w = none →
    o.parked w = some (some (o.name, o.size)) ∨ Told (w.own a) o.peer o.ref.id o.name o.size
  applied : w.threads l = .ret (.landing .applied) → o.row w ≠ none
  settled : w.threads a = .ret .stored → Landed w l →
    (∃ rec, o.row w = some (some rec) ∧ Lands o.name o.size rec) ∨
      o.parked w = some (some (o.name, o.size)) ∨ ∃ i, o.Carries (w.own i)
  begun : ∀ i, late i → w.threads a = .ret .stored ∧ Landed w l

variable {jobs : ι → Work} {a l : ι} {lates : ι → Prop} {w : Desk ι} {turn : Turn ι CallError}

variable (o) in
inductive Effect (jobs : ι → Work) (w : Desk ι) (turn : Turn ι CallError) (w' : Desk ι) : Prop
  | none (row : o.row w' = o.row w) (parked : o.parked w' = o.parked w)
  | wrote {rec : ChatRecord} (next : w.next turn.thread = some (.putRow rec))
      (here : o.At rec.peerId rec.id) (done : turn.failure = none) (row : o.row w' = some (some rec))
      (parked : o.parked w' = o.parked w)
      (puts : o.Puts (jobs turn.thread).task (w.own turn.thread) rec)
  | parked (row : o.row w' = o.row w) (parked : o.parked w' = some (some (o.name, o.size)))
  | took (row : o.row w' = o.row w)
      (may : (jobs turn.thread).task = .claim ∨
        ∃ old, lastSeen (w.own turn.thread) o.peer o.ref.id = some (some (some old)))
      (pre : List Heard) (gone : Bool)
      (own : w'.own turn.thread = pre ++ [⟨.getLanding o.peer o.ref.id, .ok (some (some (o.name, o.size)))⟩,
        ⟨.deleteLanding o.peer o.ref.id, .ok gone⟩])

theorem put_row {rec : ChatRecord} (next : w.next turn.thread = some (.putRow rec))
    (here : o.At rec.peerId rec.id) (done : turn.failure = none) :
    o.row (w.step Disk.exec turn) = some (some rec) := by
  obtain ⟨rest, now⟩ := Pool.next_eq_some.mp next
  rw [Pool.step, now, done]
  exact (ChatStore.rows_write ..).trans (if_pos here)

namespace Settling
variable (h : Settling o jobs a l lates w)
include h

theorem told {i : ι} {name : String} {size : Nat} (told : Told (w.own i) o.peer o.ref.id name size) :
    (name, size) = (o.name, o.size) := Option.some.inj (h.heard i _ told)

theorem effect (turn : Turn ι CallError) : o.Effect jobs w turn (w.step Disk.exec turn) := by
  rcases Pool.step_cases Disk.exec w turn with ⟨call, next, now, after⟩ | ⟨_, after⟩
  · have must := h.keeps.call now
    have called : w.next turn.thread = some call := by rw [Pool.next, now]
    cases failed : turn.failure with
    | some e =>
      rw [failed] at after
      rw [after]
      exact .none rfl rfl
    | none =>
      have state : (w.step Disk.exec turn).state = (w.state.exec call).2 := by rw [after, failed]; rfl
      have own : (w.step Disk.exec turn).own turn.thread = w.own turn.thread ++ [⟨call, (w.state.exec call).1⟩] := by
        rw [after, failed, Pool.own_push, if_pos rfl]
        rfl
      have rows (noPut : ∀ rec, call ≠ .putRow rec) :
          o.row (w.step Disk.exec turn) = o.row w := by
        rw [Offer.row, state, rows_exec w.state noPut fun peer id same => ?_]
        · rfl
        · subst same
          exact must.2
      cases call with
      | putRow rec =>
        have parked : o.parked (w.step Disk.exec turn) = o.parked w := by rw [Offer.parked, state]; rfl
        have row : o.row (w.step Disk.exec turn) = if o.At rec.peerId rec.id then some (some rec) else o.row w := by
          rw [Offer.row, state]
          exact ChatStore.rows_write ..
        by_cases here : o.At rec.peerId rec.id
        · exact .wrote called here failed (row.trans (if_pos here)) parked (must.2 here)
        · exact .none (row.trans (if_neg here)) parked
      | putLanding peer id name size =>
        by_cases here : o.At peer id
        · obtain ⟨rfl, rfl⟩ := here
          obtain ⟨-, rfl, rfl⟩ := must.2 ⟨rfl, rfl⟩
          refine .parked (rows (by rintro _ ⟨⟩)) ?_
          rw [Offer.parked, state]
          exact (Disk.landings_putLanding ..).trans (if_pos ⟨rfl, rfl⟩)
        · refine .none (rows (by rintro _ ⟨⟩)) ?_
          rw [Offer.parked, state]
          exact (Disk.landings_putLanding ..).trans (if_neg fun same => here ⟨same.1.symm, same.2.symm⟩)
      | deleteLanding peer id =>
        by_cases here : o.At peer id
        · obtain ⟨rfl, rfl⟩ := here
          obtain ⟨may, pre, found, ends⟩ := must.2 ⟨rfl, rfl⟩
          have landing := h.heard turn.thread found (by rw [ends]; exact List.mem_append_right _ List.mem_cons_self)
          subst landing
          refine .took (rows (by rintro _ ⟨⟩)) may pre (w.state.store.landings o.peer o.ref.id).isSome ?_
          rw [own, ends, List.append_assoc]
          rfl
        · refine .none (rows (by rintro _ ⟨⟩)) ?_
          rw [Offer.parked, state]
          exact (Disk.landings_putLanding ..).trans (if_neg fun same => here ⟨same.1.symm, same.2.symm⟩)
      | _ => exact .none (rows (by rintro _ ⟨⟩)) (by rw [Offer.parked, state]; rfl)
  · rw [after]
    exact .none rfl rfl

/-- A row that stands is not taken away. -/
theorem row_stays (stood : o.row w ≠ none) : o.row (w.step Disk.exec turn) ≠ none := by
  cases h.effect turn with
  | wrote next here done row => rw [row]; exact nofun
  | none row | parked row | took row => rw [row]; exact stood

/-- What is written once the claim has been stored is of a file in flight, and with what lands. -/
theorem puts_late {i : ι} {rec : ChatRecord} (stored : w.threads a = .ret .stored) (roles : Roles jobs a l)
    {call : Call} (next : w.next i = some call) (puts : o.Puts (jobs i).task (w.own i) rec) :
    InFlight rec ∧ Lands o.name o.size rec := by
  have other : (jobs i).task ≠ .claim := by
    intro own
    rw [(roles.claims i).mp own, Pool.next, stored] at next
    cases next
  cases puts with
  | claim now own => exact absurd own other
  | landed now own => exact absurd own other
  | corrected seen flies bears =>
    refine ⟨flies ((h.seen i _ seen).2 stored), ?_⟩
    rcases bears with lands | ⟨name, size, told, lands⟩
    · exact lands
    · cases h.told told
      exact lands

variable (ok : o.Fair w turn) (roles : Roles jobs a l)
include ok roles

omit roles in
theorem heard_allowed (call : Call) (next : w.next turn.thread = some call) :
    o.hears (lates turn.thread) (w.own turn.thread) call
      (Pool.reply Disk.exec w.state turn.failure call).1 := by
  have flies {peer : DeviceId} {id : String} {rec : ChatRecord}
      (stored : (w.state.store.rows peer)[id]? = some (some rec)) :
      (rec.peerId = peer ∧ rec.id = id) ∧ (lates turn.thread → o.At peer id → InFlight rec) := by
    refine ⟨h.keyed peer id rec stored, ?_⟩
    rintro late ⟨rfl, rfl⟩
    obtain ⟨rec', here, flies⟩ := h.row (h.begun _ late).1
    cases stored.symm.trans here
    exact flies
  have fair := ok call next
  cases call with
  | getRow peer id =>
    cases turn.failure with
    | some e => exact trivial
    | none => exact fun rec stored => flies stored
  | listRows peer =>
    cases turn.failure with
    | some e => exact trivial
    | none =>
      refine ⟨SortedMap.distinct_toList _, fun id rec mem => flies ?_⟩
      exact Std.ExtTreeMap.mem_toList_iff_getElem?_eq_some.mp mem
  | getLanding peer id =>
    rintro late ⟨rfl, rfl⟩
    obtain ⟨done, parked | parked, seen, alone⟩ := fair ⟨rfl, rfl⟩
    · rw [done]
      refine .inr ⟨congrArg Except.ok parked, fun old last => ?_⟩
      obtain ⟨stored, landed⟩ := h.begun _ late
      rcases h.settled stored landed with ⟨rec, here, lands⟩ | found | ⟨i, carries⟩
      · cases (seen _ last).symm.trans here
        exact lands
      · cases parked.symm.trans found
      · by_cases same : i = turn.thread
        · subst same
          obtain ⟨rec, same, _⟩ := (h.keeps.next next).1 carries
          cases same
        · exact absurd carries (alone i same)
    · rw [done]
      exact .inl (congrArg Except.ok parked)
  | _ => exact trivial

/-- A landing that is carried is written in its bearer's next turn. -/
theorem carried (stored : w.threads a = .ret .stored) {i : ι} (carries : o.Carries (w.own i)) :
    o.Carries ((w.step Disk.exec turn).own i) ∨
      ∃ rec, o.row (w.step Disk.exec turn) = some (some rec) ∧ Lands o.name o.size rec := by
  rcases Pool.own_step Disk.exec w turn i with same | ⟨rfl, call, next, -, -⟩
  · rw [same]
    exact .inl carries
  · have must := h.keeps.next next
    obtain ⟨rec, rfl, here⟩ := must.1 carries
    have done := (ok _ next here).1 carries
    exact .inr ⟨rec, put_row next here done, (h.puts_late stored roles next (must.2 here)).2⟩

/-- The turn in which the claim is stored: no row stood, and what is written has heard of the landing
or is the claim. -/
theorem stored_now (going : w.threads a ≠ .ret .stored)
    (stored : (w.step Disk.exec turn).threads a = .ret .stored)
    (kept : (w.step Disk.exec turn).Keeps (fun i => o.hears (lates i)) (fun i => o.does (jobs i).task)
      (fun i => o.returns (lates i) (jobs i).task) fun _ _ asked => ¬ o.Carries asked) :
    turn.thread = a ∧ o.row w = none ∧ o.parked (w.step Disk.exec turn) = o.parked w ∧ ∃ rec,
      o.row (w.step Disk.exec turn) = some (some rec) ∧ InFlight rec ∧
      (Told (w.own a) o.peer o.ref.id o.name o.size → Lands o.name o.size rec) := by
  have returned := (kept.ret stored).2
  rw [(roles.claims a).mpr rfl] at returned
  obtain ⟨pre, rec, last, here, unseen⟩ := returned
  obtain ⟨rfl, call, next, own, -⟩ := Pool.ended_turn going stored
  have ends := List.append_inj' (own.symm.trans last) rfl
  obtain ⟨rfl, asked⟩ := ends
  injection List.singleton_inj.mp asked with same answer
  subst same
  have done : turn.failure = none := by
    cases failed : turn.failure with
    | none => rfl
    | some e => rw [failed] at answer; cases eq_of_heq answer
  have none : lastSeen (w.own turn.thread) rec.peerId rec.id = Option.none := by
    rw [here.1, here.2]
    exact unseen
  have free := (ok _ next here).2 none done
  refine ⟨rfl, free, ?_, rec, put_row next here done, ?_⟩
  · obtain ⟨rest, now⟩ := Pool.next_eq_some.mp next
    rw [Offer.parked, Pool.step, now, done]
    rfl
  · cases (h.keeps.next next).2 here with
    | claim now own _ unheard => exact ⟨⟨rfl, rfl⟩, fun told => absurd told (unheard _ _)⟩
    | landed now own _ told =>
      cases h.told told
      exact ⟨land_flies.mpr ⟨rfl, rfl⟩, fun _ => land_lands rfl ..⟩
    | corrected seen => cases unseen.symm.trans seen

omit ok in
/-- The turn in which the landing call says that it knows. -/
theorem landed_now (going : ¬ Landed w l) (landed : Landed (w.step Disk.exec turn) l)
    (kept : (w.step Disk.exec turn).Keeps (fun i => o.hears (lates i)) (fun i => o.does (jobs i).task)
      (fun i => o.returns (lates i) (jobs i).task) fun _ _ asked => ¬ o.Carries asked) :
    turn.thread = l ∧ (o.parked (w.step Disk.exec turn) = some (some (o.name, o.size)) ∨
      ∃ rec, o.row (w.step Disk.exec turn) = some (some rec) ∧ Lands o.name o.size rec) := by
  obtain ⟨expected, task⟩ := (roles.lands l).mpr rfl
  rcases landed with landed | landed
  · have returned := (kept.ret landed).2
    rw [task] at returned
    obtain ⟨pre, last⟩ := returned
    obtain ⟨rfl, call, next, own, state⟩ := Pool.ended_turn (fun before => going (.inl before)) landed
    obtain ⟨rfl, asked⟩ := List.append_inj' (own.symm.trans last) rfl
    injection List.singleton_inj.mp asked with same answer
    subst same
    refine ⟨rfl, .inl ?_⟩
    cases failed : turn.failure with
    | some e => rw [failed] at answer; cases eq_of_heq answer
    | none =>
      rw [Offer.parked, state, failed]
      exact (Disk.landings_putLanding ..).trans (if_pos ⟨rfl, rfl⟩)
  · have returned := (kept.ret landed).2
    rw [task] at returned
    obtain ⟨pre, rec, last, here, bears⟩ := returned
    obtain ⟨rfl, call, next, own, state⟩ := Pool.ended_turn (fun before => going (.inr before)) landed
    obtain ⟨rfl, asked⟩ := List.append_inj' (own.symm.trans last) rfl
    injection List.singleton_inj.mp asked with same answer
    subst same
    have done : turn.failure = none := by
      cases failed : turn.failure with
      | none => rfl
      | some e => rw [failed] at answer; cases eq_of_heq answer
    refine ⟨rfl, .inr ⟨rec, put_row next here done, ?_⟩⟩
    rcases bears with lands | ⟨name, size, told, lands⟩
    · exact lands
    · cases h.told told
      exact lands

theorem step : Settling o jobs a l lates (w.step Disk.exec turn) := by
  have keeps := h.keeps.step turn (h.heard_allowed ok)
  have keyed : (w.step Disk.exec turn).state.store.WellKeyed := by
    rcases Pool.step_cases Disk.exec w turn with ⟨call, rest, now, after⟩ | ⟨_, after⟩
    · rw [after]
      cases turn.failure with
      | some e => exact h.keyed
      | none => exact h.keyed.exec call
    · rw [after]
      exact h.keyed
  have heard : ∀ i found, ⟨.getLanding o.peer o.ref.id, .ok (some found)⟩ ∈ (w.step Disk.exec turn).own i →
      found = some (o.name, o.size) := by
    intro i found mem
    rcases Pool.own_step Disk.exec w turn i with same | ⟨rfl, call, next, own, -⟩
    · exact h.heard i found (same ▸ mem)
    · rw [own] at mem
      rcases List.mem_append.mp mem with old | new
      · exact h.heard _ found old
      · injection List.mem_singleton.mp new with same answer
        subst same
        obtain ⟨done, parked, -⟩ := ok _ next ⟨rfl, rfl⟩
        rw [done] at answer
        have there : o.parked w = some found := (Except.ok.inj (eq_of_heq answer)).symm
        rcases parked with none | known
        · cases none.symm.trans there
        · exact Option.some.inj (there.symm.trans known)
  have row : (w.step Disk.exec turn).threads a = .ret .stored →
      ∃ rec, o.row (w.step Disk.exec turn) = some (some rec) ∧ InFlight rec := by
    intro stored
    by_cases before : w.threads a = .ret .stored
    · obtain ⟨rec, here, flies⟩ := h.row before
      cases h.effect turn with
      | wrote next own done row parked puts => exact ⟨_, row, (h.puts_late before roles next puts).1⟩
      | none row | parked row | took row => exact ⟨rec, row.trans here, flies⟩
    · obtain ⟨-, -, -, rec, here, flies, -⟩ := h.stored_now ok roles before stored keeps
      exact ⟨rec, here, flies⟩
  have seen : ∀ i rec, lastSeen ((w.step Disk.exec turn).own i) o.peer o.ref.id = some (some (some rec)) →
      o.row (w.step Disk.exec turn) ≠ none ∧
        ((w.step Disk.exec turn).threads a = .ret .stored → InFlight rec) := by
    intro i rec last
    have old (before : lastSeen (w.own i) o.peer o.ref.id = some (some (some rec))) :
        o.row (w.step Disk.exec turn) ≠ none ∧
          ((w.step Disk.exec turn).threads a = .ret .stored → InFlight rec) := by
      obtain ⟨stood, flies⟩ := h.seen i rec before
      refine ⟨h.row_stays stood, fun stored => ?_⟩
      by_cases already : w.threads a = .ret .stored
      · exact flies already
      · exact absurd (h.stored_now ok roles already stored keeps).2.1 stood
    rcases Pool.own_step Disk.exec w turn i with same | ⟨rfl, call, next, own, state⟩
    · exact old (same ▸ last)
    · rw [own, lastSeen_push] at last
      have noDelete (peer : DeviceId) (id : String) : call ≠ .deleteRow peer id := by
        rintro rfl
        exact (h.keeps.next next).2
      rcases see_reply w.state turn.failure noDelete o.peer o.ref.id
        (lastSeen (w.own turn.thread) o.peer o.ref.id) with kept | new
      · exact old (kept.symm.trans last)
      · have here : o.row (w.step Disk.exec turn) = some (some rec) := by
          rw [Offer.row, state]
          exact Option.some.inj (new.symm.trans last)
        refine ⟨by rw [here]; exact nofun, fun stored => ?_⟩
        obtain ⟨rec', there, flies⟩ := row stored
        cases here.symm.trans there
        exact flies
  refine ⟨keeps, keyed, heard, row, seen, fun parked free => ?_, fun applied => ?_, fun stored landed => ?_,
    fun i late => ?_⟩
  · have before : o.row w = none := by
      by_contra stood
      exact h.row_stays stood free
    by_cases already : Landed w l
    · have parked : w.threads l = .ret (.landing .parked) := by
        rcases already with p | applied
        · exact p
        · exact absurd before (h.applied applied)
      have told (told : Told (w.own a) o.peer o.ref.id o.name o.size) :
          Told ((w.step Disk.exec turn).own a) o.peer o.ref.id o.name o.size := by
        rcases Pool.own_step Disk.exec w turn a with same | ⟨-, call, -, own, -⟩
        · exact same ▸ told
        · rw [Told, own]
          exact List.mem_append_left _ told
      cases h.effect turn with
      | none _ same => exact (h.parked parked before).imp same.trans told
      | wrote next here done row same => cases free.symm.trans row
      | parked _ new => exact .inl new
      | took _ may pre gone own =>
        rcases may with claim | ⟨old, seen⟩
        · rw [(roles.claims _).mp claim] at own
          rw [Told, own]
          exact .inr (List.mem_append_right _ List.mem_cons_self)
        · exact absurd before (h.seen _ old seen).1
    · rcases (h.landed_now roles already (.inl parked) keeps).2 with new | ⟨rec, here, -⟩
      · exact .inl new
      · cases free.symm.trans here
  · by_cases already : w.threads l = .ret (.landing .applied)
    · exact h.row_stays (h.applied already)
    · have returned := (keeps.ret applied).2
      obtain ⟨expected, task⟩ := (roles.lands l).mpr rfl
      rw [task] at returned
      obtain ⟨pre, rec, last, here, -⟩ := returned
      have read : lastSeen ((w.step Disk.exec turn).own l) o.peer o.ref.id = some (some (some rec)) := by
        rw [last, lastSeen_push]
        exact if_pos here
      exact (seen l rec read).1
  · by_cases before : w.threads a = .ret .stored
    · by_cases already : Landed w l
      · rcases h.settled before already with ⟨rec, here, lands⟩ | parked | ⟨i, carries⟩
        · cases h.effect turn with
          | wrote next own done row parked puts =>
            exact .inl ⟨_, row, (h.puts_late before roles next puts).2⟩
          | none row | parked row | took row => exact .inl ⟨rec, row.trans here, lands⟩
        · cases h.effect turn with
          | none _ same => exact .inr (.inl (same.trans parked))
          | wrote _ _ _ _ same => exact .inr (.inl (same.trans parked))
          | parked _ new => exact .inr (.inl new)
          | took _ may pre gone own =>
            refine .inr (.inr ⟨turn.thread, pre, _, gone, own, fun old last => ?_⟩)
            exact ((seen _ old last).2 stored).2
        · rcases h.carried ok roles before carries with still | written
          · exact .inr (.inr ⟨i, still⟩)
          · exact .inl written
      · rcases (h.landed_now roles already landed keeps).2 with parked | written
        · exact .inr (.inl parked)
        · exact .inl written
    · obtain ⟨thread, free, same, rec, here, -, lands⟩ := h.stored_now ok roles before stored keeps
      have parked : w.threads l = .ret (.landing .parked) := by
        have already : Landed w l := by
          by_contra going
          have other := (h.landed_now roles going landed keeps).1
          obtain ⟨expected, task⟩ := (roles.lands l).mpr rfl
          rw [← other, thread, (roles.claims a).mpr rfl] at task
          cases task
        rcases already with p | applied
        · exact p
        · exact absurd free (h.applied applied)
      rcases h.parked parked free with waits | told
      · exact .inr (.inl (same.trans waits))
      · exact .inl ⟨rec, here, lands told⟩
  · obtain ⟨stored, landed⟩ := h.begun i late
    exact ⟨Pool.ended_step stored turn, landed.imp (Pool.ended_step · turn) (Pool.ended_step · turn)⟩

end Settling

section
variable {c : Chrono} {d : Disk}

theorem Settling.start (keyed : d.store.WellKeyed) (roles : Roles jobs a l) :
    Settling o jobs a l (fun _ => False) (o.begun c jobs d) := by
  have keeps : (o.begun c jobs d).Keeps (fun _ => o.hears False) (fun i => o.does (jobs i).task)
      (fun i => o.returns False (jobs i).task) fun _ _ asked => ¬ o.Carries asked :=
    fun i => acts_program c (jobs i) _ rfl
  have unstored : (o.begun c jobs d).threads a ≠ .ret .stored := by
    intro stored
    have returned := (keeps.ret stored).2
    rw [(roles.claims a).mpr rfl] at returned
    obtain ⟨pre, _, last, _⟩ := returned
    cases pre <;> cases last
  have unlanded : ¬ Landed (o.begun c jobs d) l := by
    obtain ⟨expected, task⟩ := (roles.lands l).mpr rfl
    rintro (landed | landed)
    · have returned := (keeps.ret landed).2
      rw [task] at returned
      obtain ⟨pre, last⟩ := returned
      cases pre <;> cases last
    · have returned := (keeps.ret landed).2
      rw [task] at returned
      obtain ⟨pre, _, last, _⟩ := returned
      cases pre <;> cases last
  exact
    { keeps := keeps
      keyed := keyed
      heard := fun _ _ mem => absurd mem List.not_mem_nil
      row := fun stored => absurd stored unstored
      seen := fun _ _ last => nomatch last
      parked := fun landed _ => absurd (.inl landed) unlanded
      applied := fun landed => absurd (.inr landed) unlanded
      settled := fun stored => absurd stored unstored
      begun := fun _ late => late.elim }

/-- One that has not begun when the claim and the landing are known reads late. -/
theorem Settling.later {before : List (Turn ι CallError)} {k : ι}
    (h : Settling o jobs a l (fun _ => False) ((o.begun c jobs d).run Disk.exec before))
    (stored : ((o.begun c jobs d).run Disk.exec before).threads a = .ret .stored)
    (landed : Landed ((o.begun c jobs d).run Disk.exec before) l)
    (silent : ((o.begun c jobs d).run Disk.exec before).own k = []) :
    Settling o jobs a l (· = k) ((o.begun c jobs d).run Disk.exec before) := by
  refine { h with keeps := fun i => ?_, begun := fun _ _ => ⟨stored, landed⟩ }
  by_cases same : i = k
  · subst same
    have untouched : ((o.begun c jobs d).run Disk.exec before).threads i = o.program c (jobs i) :=
      Pool.untouched silent
    rw [untouched, silent]
    exact acts_program c (jobs i) _ rfl
  · have kept := h.keeps i
    rw [← eq_false same] at kept
    exact kept

/-- Where every look at the landing and every write of it is fair, a read that begins once the claim
is stored and the landing known shows of the file what lands, whatever else is done meanwhile. -/
theorem landing_beats_claim (o : Offer) (c : Chrono) (jobs : ι → Work) (roles : Roles jobs a l)
    (d : Disk) (keyed : d.store.WellKeyed) (before after : List (Turn ι CallError))
    (ok : TransitionRun.Along (Pool.step Disk.exec) o.Fair (o.begun c jobs d) (before ++ after))
    (stored : ((o.begun c jobs d).run Disk.exec before).threads a = .ret .stored)
    (landed : Landed ((o.begun c jobs d).run Disk.exec before) l) {k : ι}
    (silent : ((o.begun c jobs d).run Disk.exec before).own k = []) {recs : List ChatRecord}
    (read : ((o.begun c jobs d).run Disk.exec (before ++ after)).threads k = .ret (.rows recs)) :
    ∀ rec ∈ recs, o.At rec.peerId rec.id → Lands o.name o.size rec := by
  obtain ⟨first, later⟩ := TransitionRun.along_append.mp ok
  have mid : Settling o jobs a l (fun _ => False) ((o.begun c jobs d).run Disk.exec before) :=
    first.invariant (.start keyed roles) fun w turn h ok => h.step ok roles
  have last : Settling o jobs a l (· = k) ((o.begun c jobs d).run Disk.exec (before ++ after)) := by
    rw [Pool.run, List.foldl_append]
    exact later.invariant (mid.later stored landed silent) fun w turn h ok => h.step ok roles
  have shown := (last.keeps.ret read).2
  cases task : (jobs k).task with
  | claim | landing | history | get | groupHistory =>
    rw [task] at shown
    exact shown rfl

end

end

private def still : Chrono := ⟨fun _ => none, fun now secs => some (now - secs * 1000000000), 0⟩

private def invoice : Offer :=
  ⟨"ann", ⟨"f", "2026-01-01T00:00:00Z", "holiday.jpg", 180⟩, "invoice.exe", 9⟩

private def desk : Fin 4 → Work
  | 0 => ⟨0, .claim⟩
  | 1 => ⟨0, .landing .inn⟩
  | _ => ⟨0, .get "ann" "f"⟩

private theorem roles : Roles desk 0 1 := by
  constructor <;> intro i <;> fin_cases i <;> simp [desk]

private def go (threads : List (Fin 4)) : List (Turn (Fin 4) CallError) := threads.map (⟨·, none⟩)

private def opened : Desk (Fin 4) := invoice.begun still desk ⟨.empty, ∅⟩

private def known : List (Turn (Fin 4) CallError) := go [1, 0, 0, 1]

/-- The claim is stored and the landing known; then one read takes the landing, and before it writes, or
after its write has failed, another shows the claim. -/
theorem read_shows_claim :
    (opened.run Disk.exec known).threads 0 = .ret .stored ∧
    (opened.run Disk.exec known).threads 1 = .ret (.landing .parked) ∧
    (opened.run Disk.exec known).own 3 = [] ∧
    (opened.run Disk.exec (known ++ go [2, 2, 2, 2, 3, 3, 3])).threads 3 =
      .ret (.rows [invoice.claim 0]) ∧
    (opened.run Disk.exec (known ++ go [2, 2, 2, 2] ++ [⟨2, some .serialization⟩] ++ go [3, 3, 3])).threads 3 =
      .ret (.rows [invoice.claim 0]) ∧
    invoice.At "ann" "f" ∧ ¬ Lands invoice.name invoice.size (invoice.claim 0) := by
  refine ⟨rfl, rfl, rfl, rfl, rfl, by decide, ?_⟩
  rintro ⟨file, isFile, name, -⟩
  cases isFile
  exact absurd name (by decide)

/-- The last thing a call has done is to delete the landing. -/
private def deletes (o : Offer) : Heard → Bool
  | ⟨.deleteLanding peer id, _⟩ => o.At peer id
  | _ => false

private theorem Carries.last {o : Offer} {asked : List Heard} (h : o.Carries asked) :
    asked.getLast?.any (deletes o) = true := by
  obtain ⟨pre, landing, gone, rfl, _⟩ := h
  rw [List.getLast?_append]
  exact decide_eq_true (And.intro rfl rfl)

private theorem alone (w : Desk (Fin 4)) (i : Fin 4)
    (h : ∀ j, j ≠ i → (w.own j).getLast?.any (deletes invoice) = false) (j : Fin 4) (other : j ≠ i) :
    ¬ invoice.Carries (w.own j) := fun held => by
  cases (h j other).symm.trans held.last

private theorem known_fair : TransitionRun.Along (Pool.step Disk.exec) invoice.Fair opened
    (known ++ go [2, 2, 2, 2, 2]) := by
  refine ⟨?_, ?_, ?_, ?_, ?_, ?_, ?_, ?_, ?_, trivial⟩
  all_goals intro call next; cases next
  · exact trivial
  · exact fun _ => ⟨rfl, .inl rfl, fun _ none => (nomatch none), alone _ _ (by decide)⟩
  · exact fun _ => ⟨fun _ => rfl, fun _ _ => by decide⟩
  · exact trivial
  · exact trivial
  · exact trivial
  · refine fun _ => ⟨rfl, .inr (by decide), fun seen last => ?_, alone _ _ (by decide)⟩
    cases last
    decide
  · exact trivial
  · exact fun _ => ⟨fun _ => rfl, fun none => nomatch none⟩

/-- The theorem where the second read waits for the first. -/
theorem read_shows_landing :
    Lands invoice.name invoice.size ((invoice.claim 0).land "invoice.exe" 9) :=
  landing_beats_claim invoice still desk roles ⟨.empty, ∅⟩ (fun _ _ _ => nofun) known
    (go [2, 2, 2, 2, 2]) known_fair rfl (.inl rfl) (k := 2) rfl rfl _ (List.mem_singleton_self _)
    (by decide)

end Offer

end PeerBeam.Chat
