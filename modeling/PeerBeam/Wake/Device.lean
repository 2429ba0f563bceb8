import PeerBeam.AppStore.Records
import PeerBeam.Trust.Record
import PeerBeam.Wake.Packet

/-! Waking a device: the addresses this machine remembers, the gate, and what leaves the machine. -/
namespace PeerBeam.Wake
open AppStore (Bytes Disk EncryptionProvider Kept PutFaults Settled StoreError namespaceDir perform)
open Trust (DeviceId Lookup isApproved)

def ns : String := "wake"

structure WakeRecord where
  device : DeviceId
  mac : MacAddress
  /-- Instants are nanoseconds. -/
  recordedAt : Int

structure RecordText where
  device : String
  mac : String
  recordedAt : Int
  deriving DecidableEq

def WakeRecord.text (r : WakeRecord) : RecordText := ⟨r.device, r.mac.toString, r.recordedAt⟩

/-- `serde_json`, with what it says of an address that does not read. -/
structure RecordCodec where
  toVec : RecordText → Except String Bytes
  fromSlice : Bytes → Except String RecordText
  custom : MacError → String

def RecordCodec.Lossless (codec : RecordCodec) : Prop :=
  ∀ text bytes, codec.toVec text = .ok bytes → codec.fromSlice bytes = .ok text

/-- `MacAddress::try_from`; the parser does not panic. -/
def tryFrom (text : String) : Except MacError MacAddress :=
  match read : fromStr text with
  | .ok mac => .ok mac
  | .error (.refused e) => .error e
  | .error (.panicked site) => ((fromStr_yields text).calm site read).elim

def RecordCodec.decode (codec : RecordCodec) (bytes : Bytes) : Except String WakeRecord :=
  match codec.fromSlice bytes with
  | .error e => .error e
  | .ok text =>
    match tryFrom text.mac with
    | .error e => .error (codec.custom e)
    | .ok mac => .ok ⟨text.device, mac, text.recordedAt⟩

section
variable {Nonce : Type} (enc : EncryptionProvider Nonce) (codec : RecordCodec) (root : Loc) (d : Disk)

def remember (device : DeviceId) (mac : MacAddress) (now : Int) (nonce : Nonce) (pid seq : ℕ) (faults : PutFaults) :
    Disk × Except WakeError Unit :=
  match codec.toVec (WakeRecord.text ⟨device, mac, now⟩) with
  | .error e => (d, .error (.storage e))
  | .ok bytes =>
    let done := AppStore.put enc root d ns device bytes nonce pid seq faults
    (done.1, done.2.mapError fun e => .storage e.toString)

def lookup (device : DeviceId) (fault : Option String) : Except WakeError (Option WakeRecord) :=
  match AppStore.get enc root d ns device fault with
  | .error e => .error (.storage e.toString)
  | .ok none => .ok none
  | .ok (some bytes) =>
    match codec.decode bytes with
    | .ok record => .ok (some record)
    | .error e => .error (.storage ("wake record for " ++ device ++ " is unreadable: " ++ e))

def forget (device : DeviceId) (fault : Option String) : Disk × Except WakeError Bool :=
  let done := AppStore.delete root d ns device fault
  (done.1, done.2.mapError fun e => .storage e.toString)

def all : Except WakeError (List WakeRecord) :=
  match AppStore.list enc root d ns with
  | .error e => .error (.storage e.toString)
  | .ok rows => .ok (rows.filterMap fun row => (codec.decode row.2).toOption)

def mayWake (macRecorded : Bool) (trust : Lookup) (now : Int) : Bool := macRecorded && isApproved trust now

theorem mayWake_iff {macRecorded : Bool} {trust : Lookup} {now : Int} :
    mayWake macRecorded trust now = true ↔ macRecorded = true ∧ isApproved trust now = true :=
  Bool.and_eq_true_iff

/-- What is handed to the socket, and the answer. The trust store answers `trust` at this moment, `now`. -/
def wakeDevice (fault : Option String) (trust : Lookup) (now : Int) (socket : MagicSocket) (device : DeviceId)
    (broadcast : Vector UInt8 4) : List Datagram × Except WakeError WakeAttempt :=
  match lookup enc codec root d device fault with
  | .error e => ([], .error e)
  | .ok recorded =>
    if gate : mayWake recorded.isSome trust now = true then
      -- the gate refuses a device with no recorded address
      sendMagicPacket socket (recorded.get (mayWake_iff.mp gate).1).mac broadcast
    else ([], .error (if recorded.isNone then .notRecorded device else .notPermitted device))

end

/-- A call on the store of this machine, with the faults it meets; `elsewhere` is one of another component. -/
inductive Call (Nonce : Type)
  | remember (device : DeviceId) (mac : MacAddress) (now : Int) (nonce : Nonce) (pid seq : ℕ) (faults : PutFaults)
  | forget (device : DeviceId) (fault : Option String)
  | elsewhere (op : AppStore.Op Nonce)

def opName {Nonce : Type} : AppStore.Op Nonce → String
  | .put name .. => name
  | .delete name .. => name
  | .clear name .. => name

/-- The disk, and the address that was last recorded for a device and not forgotten since. -/
structure Memory where
  disk : Disk
  recorded : DeviceId → Option MacAddress

section
variable {Nonce : Type} (enc : EncryptionProvider Nonce) (codec : RecordCodec) (root : Loc)

def Memory.step (m : Memory) : Call Nonce → Memory
  | .remember device mac now nonce pid seq faults =>
    let done := remember enc codec root m.disk device mac now nonce pid seq faults
    ⟨done.1, if done.2.isOk then Function.update m.recorded device (some mac) else m.recorded⟩
  | .forget device fault =>
    let done := forget root m.disk device fault
    ⟨done.1, if done.2.isOk then Function.update m.recorded device none else m.recorded⟩
  | .elsewhere op => ⟨(perform enc root m.disk op).1, m.recorded⟩

def remembered (calls : List (Call Nonce)) : Memory :=
  calls.foldl (Memory.step enc codec root) ⟨fun _ => none, fun _ => none⟩

end

theorem tryFrom_toString (mac : MacAddress) : tryFrom mac.toString = .ok mac := by
  have read := fromStr_toString mac
  unfold tryFrom
  split
  next mac' read' =>
    rw [read] at read'
    rw [Except.ok.inj read']
  next refused =>
    rw [read] at refused
    cases refused
  next panicked =>
    rw [read] at panicked
    cases panicked

theorem RecordCodec.Lossless.decode {codec : RecordCodec} (lossless : codec.Lossless) {record : WakeRecord} {bytes : Bytes}
    (written : codec.toVec record.text = .ok bytes) : codec.decode bytes = .ok record := by
  rw [RecordCodec.decode, lossless _ _ written]
  dsimp only [WakeRecord.text]
  rw [tryFrom_toString]

theorem isOk_mapError {ε ε' α : Type} (f : ε → ε') (x : Except ε α) : (x.mapError f).isOk = x.isOk := by
  cases x <;> rfl

def Recorded (codec : RecordCodec) (kept : Kept) (recorded : DeviceId → Option MacAddress) : Prop :=
  ∀ device, kept ns device = none ∧ recorded device = none ∨
    ∃ bytes record, kept ns device = some bytes ∧ codec.decode bytes = .ok record ∧ record.device = device ∧
      recorded device = some record.mac

section
variable {Nonce : Type} {enc : EncryptionProvider Nonce} {root : Loc} {codec : RecordCodec} {kept : Kept}
  {recorded : DeviceId → Option MacAddress}

theorem Recorded.remember (held : Recorded codec kept recorded) {record : WakeRecord} {bytes : Bytes}
    (read : codec.decode bytes = .ok record) :
    Recorded codec (Function.update kept ns (Function.update (kept ns) record.device (some bytes)))
      (Function.update recorded record.device (some record.mac)) := by
  intro other
  rw [Function.update_self]
  by_cases same : other = record.device
  · subst same
    rw [Function.update_self, Function.update_self]
    exact .inr ⟨bytes, record, rfl, read, rfl, rfl⟩
  · rw [Function.update_of_ne same, Function.update_of_ne same]
    exact held other

theorem Recorded.forget (held : Recorded codec kept recorded) (device : DeviceId) :
    Recorded codec (Function.update kept ns (Function.update (kept ns) device none)) (Function.update recorded device none) := by
  intro other
  rw [Function.update_self]
  by_cases same : other = device
  · subst same
    rw [Function.update_self, Function.update_self]
    exact .inl ⟨rfl, rfl⟩
  · rw [Function.update_of_ne same, Function.update_of_ne same]
    exact held other

theorem Recorded.elsewhere (held : Recorded codec kept recorded) (op : AppStore.Op Nonce)
    (apart : opName op ≠ ns) (done : Bool) : Recorded codec (op.settle kept done) recorded := by
  have other : op.settle kept done ns = kept ns := by
    cases op with
    | put name =>
      cases done with
      | false => rfl
      | true => exact Function.update_of_ne (Ne.symm apart) ..
    | delete name =>
      cases done with
      | false => rfl
      | true => exact Function.update_of_ne (Ne.symm apart) ..
    | clear name fault =>
      cases done with
      | true => exact Function.update_of_ne (Ne.symm apart) ..
      | false =>
        cases fault with
        | none => rfl
        | some fault => exact Function.update_of_ne (Ne.symm apart) ..
  intro device
  rw [other]
  exact held device

theorem commit_empty (d : Disk) (dir : Loc) (closed : Bytes) (tmp : String) (faults : PutFaults) :
    (AppStore.commit d dir "" closed tmp faults).2.isOk = false := by
  rw [AppStore.commit]
  cases faults.writeTmp with
  | some fault => rfl
  | none =>
    cases faults.rename with
    | some fault => rfl
    | none =>
      dsimp only
      rw [if_pos rfl]
      rfl

/-- No record is put under the empty key. -/
theorem put_empty (enc : EncryptionProvider Nonce) (root : Loc) (d : Disk) (name : String) (value : Bytes) (nonce : Nonce)
    (pid seq : ℕ) (faults : PutFaults) : (AppStore.put enc root d name "" value nonce pid seq faults).2.isOk = false := by
  have empty : AppStore.fileName "" = "" := by decide +kernel
  rw [AppStore.put]
  cases namespaceDir root name with
  | error e => rfl
  | ok dir =>
    cases enc.seal nonce value with
    | error e => rfl
    | ok closed =>
      dsimp only
      rw [AppStore.write, empty]
      cases faults.createDir with
      | some e => rfl
      | none =>
        dsimp only
        rw [if_pos rfl]
        cases d dir with
        | none => rfl
        | some files =>
          cases faults.createTmp with
          | some e => rfl
          | none =>
            dsimp only
            split
            · rfl
            · exact commit_empty ..

structure Held (enc : EncryptionProvider Nonce) (codec : RecordCodec) (root : Loc) (m : Memory) : Prop where
  kept : ∃ kept, Settled enc root m.disk kept ∧ Recorded codec kept m.recorded
  named : m.recorded "" = none

theorem Held.remember {m : Memory} (opens : enc.Opens) (lossless : codec.Lossless) (held : Held enc codec root m)
    (device : DeviceId) (mac : MacAddress) (now : Int) (nonce : Nonce) (pid seq : ℕ) (faults : PutFaults) :
    Held enc codec root (m.step enc codec root (.remember device mac now nonce pid seq faults)) := by
  obtain ⟨⟨kept, settled, recorded⟩, named⟩ := held
  rw [Memory.step, Wake.remember]
  cases written : codec.toVec (WakeRecord.text ⟨device, mac, now⟩) with
  | error e => exact ⟨⟨kept, settled, recorded⟩, named⟩
  | ok bytes =>
    have after := settled.perform opens (.put ns device bytes nonce pid seq faults)
    dsimp only
    rw [isOk_mapError]
    rw [AppStore.perform] at after
    cases done : (AppStore.put enc root m.disk ns device bytes nonce pid seq faults).2.isOk with
    | false =>
      rw [done] at after
      exact ⟨⟨kept, after, recorded⟩, named⟩
    | true =>
      rw [done] at after
      refine ⟨⟨_, after, recorded.remember (lossless.decode written)⟩, ?_⟩
      have some_ : "" ≠ device := by
        rintro rfl
        rw [put_empty] at done
        cases done
      rw [if_pos rfl]
      dsimp only
      rw [Function.update_of_ne some_]
      exact named

theorem Held.forget {m : Memory} (held : Held enc codec root m) (device : DeviceId) (fault : Option String) :
    Held enc codec root (m.step enc codec root (.forget device fault)) := by
  obtain ⟨⟨kept, settled, recorded⟩, named⟩ := held
  have after := settled.delete ns device fault
  rw [Memory.step, Wake.forget]
  dsimp only
  rw [isOk_mapError]
  rw [AppStore.perform] at after
  cases done : (AppStore.delete root m.disk ns device fault).2.isOk with
  | false =>
    rw [done] at after
    exact ⟨⟨kept, after, recorded⟩, named⟩
  | true =>
    rw [done] at after
    refine ⟨⟨_, after, recorded.forget device⟩, ?_⟩
    rw [if_pos rfl]
    dsimp only
    by_cases same : "" = device
    · rw [same, Function.update_self]
    · rw [Function.update_of_ne same]
      exact named

theorem held_remembered (opens : enc.Opens) (lossless : codec.Lossless) (root : Loc) (calls : List (Call Nonce))
    (elsewhere : ∀ op, .elsewhere op ∈ calls → opName op ≠ ns) :
    Held enc codec root (remembered enc codec root calls) := by
  induction calls using List.reverseRecOn with
  | nil => exact ⟨⟨fun _ _ => none, ⟨fun _ _ _ => .empty, fun _ _ _ _ => rfl⟩, fun _ => .inl ⟨rfl, rfl⟩⟩, rfl⟩
  | append_singleton calls call ih =>
    have held := ih fun op mem => elsewhere op (List.mem_append_left _ mem)
    rw [remembered, List.foldl_append]
    cases call with
    | remember device mac now nonce pid seq faults => exact held.remember opens lossless device mac now nonce pid seq faults
    | forget device fault => exact held.forget device fault
    | elsewhere op =>
      obtain ⟨⟨kept, settled, recorded⟩, named⟩ := held
      have apart := elsewhere op (List.mem_append_right _ (List.mem_singleton_self _))
      exact ⟨⟨_, settled.perform opens op, recorded.elsewhere op apart _⟩, named⟩

theorem namespaceDir_ns (root : Loc) : ∃ dir, namespaceDir root ns = .ok dir := by
  rw [namespaceDir, if_pos (by decide +kernel)]
  exact ⟨_, rfl⟩

/-- A lookup finds the address that is recorded. -/
theorem Held.lookup {m : Memory} (held : Held enc codec root m) {device : DeviceId} (some_ : device ≠ "") :
    m.recorded device = none ∧ lookup enc codec root m.disk device none = .ok none ∨
    ∃ record, m.recorded device = some record.mac ∧ lookup enc codec root m.disk device none = .ok (some record) := by
  obtain ⟨⟨kept, settled, recorded⟩, -⟩ := held
  obtain ⟨dir, made⟩ := namespaceDir_ns root
  rw [Wake.lookup, settled.get made some_]
  rcases recorded device with ⟨absent, none_⟩ | ⟨bytes, record, here, read, -, same⟩
  · rw [absent]
    exact .inl ⟨none_, rfl⟩
  · rw [here]
    dsimp only
    rw [read]
    exact .inr ⟨record, same, rfl⟩

/-- Nothing is found under the empty id. -/
theorem lookup_empty (m : Memory) (fault : Option String) (record : WakeRecord) :
    lookup enc codec root m.disk "" fault ≠ .ok (some record) := by
  have empty : AppStore.fileName "" = "" := by decide +kernel
  obtain ⟨dir, made⟩ := namespaceDir_ns root
  intro found
  rw [Wake.lookup, AppStore.get, made, empty] at found
  cases fault with
  | some e => cases found
  | none =>
    dsimp only at found
    cases there : m.disk dir with
    | none =>
      rw [there] at found
      cases found
    | some files =>
      rw [there] at found
      dsimp only at found
      rw [if_pos rfl] at found
      cases found

theorem lookup_error {m : Memory} {device : DeviceId} {fault : Option String} {e : WakeError}
    (failed : lookup enc codec root m.disk device fault = .error e) : ∃ why, e = .storage why := by
  rw [Wake.lookup] at failed
  split at failed
  · cases failed
    exact ⟨_, rfl⟩
  · cases failed
  · split at failed
    · cases failed
    · cases failed
      exact ⟨_, rfl⟩

theorem fault_of_lookup {m : Memory} {device : DeviceId} {fault : Option String} {found : Option WakeRecord}
    (read : lookup enc codec root m.disk device fault = .ok found) : fault = none := by
  obtain ⟨dir, made⟩ := namespaceDir_ns root
  cases fault with
  | none => rfl
  | some e =>
    rw [Wake.lookup, AppStore.get, made] at read
    cases read

/-- A listing has the devices with a recorded address, each once, in their order. -/
theorem Held.all {m : Memory} (held : Held enc codec root m) :
    ∃ records, all enc codec root m.disk = .ok records ∧ records.Pairwise (·.device < ·.device) ∧
      ∀ device mac, (∃ record ∈ records, record.device = device ∧ record.mac = mac) ↔ m.recorded device = some mac := by
  obtain ⟨⟨kept, settled, recorded⟩, -⟩ := held
  obtain ⟨dir, made⟩ := namespaceDir_ns root
  obtain ⟨rows, listed, sorted, kept_⟩ := settled.list made
  have reads : ∀ row ∈ rows, ∃ record, codec.decode row.2 = .ok record ∧ record.device = row.1 ∧
      m.recorded row.1 = some record.mac := by
    rintro ⟨key, value⟩ mem
    have here := (kept_ key value).mp mem
    rcases recorded key with ⟨absent, -⟩ | ⟨bytes, record, here', read, same, known⟩
    · rw [here] at absent
      cases absent
    · rw [here] at here'
      cases here'
      exact ⟨record, read, same, known⟩
  refine ⟨_, by rw [Wake.all, listed], ?_, fun device mac => ⟨?_, ?_⟩⟩
  · refine List.pairwise_filterMap.mpr (sorted.imp_of_mem ?_)
    intro a b mem mem' less r got r' got'
    obtain ⟨record, read, same, -⟩ := reads a mem
    obtain ⟨record', read', same', -⟩ := reads b mem'
    rw [read] at got
    rw [read'] at got'
    cases got
    cases got'
    rw [same, same']
    exact less
  · rintro ⟨r, mem, rfl, rfl⟩
    obtain ⟨row, mem, got⟩ := List.mem_filterMap.mp mem
    obtain ⟨record, read, same, known⟩ := reads row mem
    rw [read] at got
    cases got
    rw [same, known]
  · intro known
    rcases recorded device with ⟨-, absent⟩ | ⟨bytes, record, here, read, same, known'⟩
    · rw [absent] at known
      cases known
    · rw [known'] at known
      cases known
      exact ⟨record, List.mem_filterMap.mpr ⟨(device, bytes), (kept_ device bytes).mpr here, by rw [read]; rfl⟩, same, rfl⟩

theorem sendMagicPacket_answer (socket : MagicSocket) (mac : MacAddress) (broadcast : Vector UInt8 4) :
    (taken socket (broadcastTargets broadcast) = [] → ∃ why, (sendMagicPacket socket mac broadcast).2 = .error (.send why)) ∧
    (taken socket (broadcastTargets broadcast) ≠ [] → (sendMagicPacket socket mac broadcast).2 =
      .ok ⟨mac, taken socket (broadcastTargets broadcast), magicPacketLen⟩) := by
  have whole : (magicPacket mac).length = magicPacketLen := by rw [magicPacket_eq, length_pattern]
  rw [sendMagicPacket]
  dsimp only
  rw [offered, List.nil_append, whole]
  constructor
  · intro none_
    rw [if_pos none_]
    exact ⟨_, rfl⟩
  · intro some_
    rw [if_neg some_]

/-- After any run of calls, with any faults, a wake of a device sends exactly when an address is recorded for it and the
trust store approves it at that moment: then a magic packet that wakes the recorded card and no other goes to the two
ports, and the answer names those that took it whole. -/
theorem wakes_exactly (opens : enc.Opens) (lossless : codec.Lossless) (root : Loc) (calls : List (Call Nonce))
    (elsewhere : ∀ op, .elsewhere op ∈ calls → opName op ≠ ns) (fault : Option String) (trust : Lookup) (now : Int)
    (socket : MagicSocket) (device : DeviceId) (broadcast : Vector UInt8 4) :
    let m := remembered enc codec root calls
    let out := wakeDevice enc codec root m.disk fault trust now socket device broadcast
    let whole := taken socket (broadcastTargets broadcast)
    (∀ mac, m.recorded device = some mac → fault = none → isApproved trust now = true →
      out.1 = (broadcastTargets broadcast).map (⟨·, magicPacket mac⟩) ∧
      (∀ octets, Wakes octets (magicPacket mac) ↔ octets = mac.octets) ∧ (magicPacket mac).length = magicPacketLen ∧
      (whole = [] → ∃ why, out.2 = .error (.send why)) ∧ (whole ≠ [] → out.2 = .ok ⟨mac, whole, magicPacketLen⟩)) ∧
    (m.recorded device = none ∨ fault ≠ none ∨ isApproved trust now = false →
      out.1 = [] ∧ ∃ e, out.2 = .error e ∧
        (e = .notPermitted device ↔ m.recorded device ≠ none ∧ fault = none) ∧
        (device ≠ "" → (e = .notRecorded device ↔ m.recorded device = none ∧ fault = none))) ∧
    ∃ records, all enc codec root m.disk = .ok records ∧ records.Pairwise (·.device < ·.device) ∧
      ∀ device mac, (∃ record ∈ records, record.device = device ∧ record.mac = mac) ↔ m.recorded device = some mac := by
  intro m out whole
  have held := held_remembered opens lossless root calls elsewhere
  have found : ∀ mac, m.recorded device = some mac →
      ∃ record, record.mac = mac ∧ lookup enc codec root m.disk device none = .ok (some record) := by
    intro mac known
    have some_ : device ≠ "" := by
      rintro rfl
      rw [held.named] at known
      cases known
    rcases held.lookup some_ with ⟨absent, -⟩ | ⟨record, known', here⟩
    · rw [known] at absent
      cases absent
    · rw [known] at known'
      cases known'
      exact ⟨record, rfl, here⟩
  refine ⟨?_, ?_, held.all⟩
  · rintro mac known rfl approved
    obtain ⟨record, rfl, here⟩ := found mac known
    have sent : out = sendMagicPacket socket record.mac broadcast := by
      show wakeDevice .. = _
      rw [wakeDevice, here]
      exact dif_pos (mayWake_iff.mpr ⟨rfl, approved⟩)
    rw [sent]
    obtain ⟨refused, accepted⟩ := sendMagicPacket_answer socket record.mac broadcast
    exact ⟨rfl, (wakes_magicPacket · record.mac), by rw [magicPacket_eq, length_pattern], refused, accepted⟩
  · intro blocked
    show (wakeDevice ..).1 = [] ∧ ∃ e, (wakeDevice ..).2 = _ ∧ _
    rw [wakeDevice]
    cases looked : lookup enc codec root m.disk device fault with
    | error e =>
      obtain ⟨why, rfl⟩ := lookup_error looked
      have faulty : ¬ (m.recorded device ≠ none ∧ fault = none) := by
        rintro ⟨known, rfl⟩
        obtain ⟨mac, known⟩ := Option.ne_none_iff_exists'.mp known
        obtain ⟨record, -, here⟩ := found mac known
        cases looked.symm.trans here
      refine ⟨rfl, _, rfl, iff_of_false (by rintro ⟨⟩) faulty, fun some_ => iff_of_false (by rintro ⟨⟩) ?_⟩
      rintro ⟨absent, rfl⟩
      rcases held.lookup some_ with ⟨-, here⟩ | ⟨record, -, here⟩ <;> cases looked.symm.trans here
    | ok answer =>
      obtain rfl := fault_of_lookup looked
      cases answer with
      | none =>
        have absent : m.recorded device = none := by
          by_contra known
          obtain ⟨mac, known⟩ := Option.ne_none_iff_exists'.mp known
          obtain ⟨record, -, here⟩ := found mac known
          cases looked.symm.trans here
        refine ⟨rfl, _, rfl, iff_of_false (by rintro ⟨⟩) fun both => both.1 absent, fun _ => iff_of_true rfl ⟨absent, rfl⟩⟩
      | some record =>
        have some_ : device ≠ "" := by
          rintro rfl
          exact lookup_empty m none record looked
        have known : m.recorded device ≠ none := by
          rcases held.lookup some_ with ⟨-, here⟩ | ⟨record', known, -⟩
          · cases looked.symm.trans here
          · rw [known]
            exact Option.some_ne_none _
        have closed : ¬ mayWake (some record).isSome trust now = true := by
          intro gate
          rcases blocked with absent | fault | unapproved
          · exact known absent
          · exact fault rfl
          · rw [(mayWake_iff.mp gate).2] at unapproved
            cases unapproved
        dsimp only
        rw [dif_neg closed]
        exact ⟨rfl, _, rfl, iff_of_true rfl ⟨known, rfl⟩, fun _ => iff_of_false (by rintro ⟨⟩) fun both => known both.1⟩

end

instance instDecidableEqMacAddress : DecidableEq MacAddress := fun a b =>
  decidable_of_iff (a.octets = b.octets) MacAddress.ext_iff.symm

def nasOctets : Octets := #v[0xde, 0xad, 0xbe, 0xef, 0x00, 0x01]

theorem nasOctets_nonzero : nasOctets ≠ Vector.replicate macLen 0 := by decide

theorem nasOctets_individual : nasOctets[0] &&& 1 = 0 := by decide

def nas : MacAddress := ⟨nasOctets, nasOctets_nonzero, nasOctets_individual⟩

/-- What `serde_json` makes of the record of one device. -/
def nasCodec : RecordCodec :=
  let bytes := TextBytes.utf8 "\x7b\"device\":\"nas\",\"mac\":\"de:ad:be:ef:00:01\",\"recorded_at\":\"1970-01-01T00:00:00Z\"\x7d"
  let text : RecordText := ⟨"nas", "de:ad:be:ef:00:01", 0⟩
  { toVec := fun t => if t = text then .ok bytes else .error "unknown"
    fromSlice := fun b => if b = bytes then .ok text else .error "unknown"
    custom := fun _ => "unknown" }

theorem nasCodec_lossless : nasCodec.Lossless := by
  intro text bytes written
  rw [nasCodec] at written ⊢
  dsimp only at written ⊢
  split at written
  next same =>
    cases written
    rw [if_pos rfl, same]
  next => cases written

/-- Forgetting the address fails, a chat is stored; one of the ports is blocked. -/
theorem nas_woken :
    let zero := Vector.replicate 12 (0 : UInt8)
    let calls : List (Call (Vector UInt8 12)) :=
      [.remember "nas" nas 0 zero 7 0 {}, .forget "nas" (some "busy"), .elsewhere (.put "chat" "nas" [1] zero 7 1 {})]
    let trust : Lookup := some (some ⟨"nas", "", "nas", 0, true, .grantedOnApproval, none, false, false⟩)
    let socket : MagicSocket := fun target => if target.port = 9 then .ok 102 else .error "blocked"
    let lan := #v[192, 168, 1, 255]
    let out := wakeDevice AppStore.clearText nasCodec ["data"]
      (remembered AppStore.clearText nasCodec ["data"] calls).disk none trust 5 socket "nas" lan
    out.1 = [⟨⟨lan, 9⟩, magicPacket nas⟩, ⟨⟨lan, 7⟩, magicPacket nas⟩] ∧ out.2 = .ok ⟨nas, [⟨lan, 9⟩], 102⟩ := by
  intro zero calls trust socket lan out
  have elsewhere : ∀ op, .elsewhere op ∈ calls → opName op ≠ ns := by
    intro op mem
    obtain rfl : op = .put "chat" "nas" [1] zero 7 1 {} := by simpa [calls] using mem
    decide
  have exact_ := (wakes_exactly AppStore.clearText_opens nasCodec_lossless ["data"] calls elsewhere none trust 5 socket
    "nas" lan).1 nas (by decide +kernel) rfl (by decide +kernel)
  exact ⟨exact_.1, exact_.2.2.2.2 (by decide +kernel)⟩

end PeerBeam.Wake
