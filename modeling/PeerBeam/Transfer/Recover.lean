import PeerBeam.Sync.ChunkReads
import PeerBeam.Transfer.Stream

/-! One file over as many links as it takes: what a completed transfer has put in place. -/
namespace PeerBeam.Transfer

def recoverable : DomainError → Bool
  | .integrity _ | .cancelled => false
  | _ => true

/-- The retry loop of both sides, on what its attempts come to. -/
def recover {α : Type} (maxAttempts : Nat) : (attempt : Nat) → List (Except DomainError α) → Option (Except DomainError α)
  | _, [] => none
  | _, .ok outcome :: _ => some (.ok outcome)
  | attempt, .error e :: rest =>
    if recoverable e ∧ attempt + 1 < maxAttempts then recover maxAttempts (attempt + 1) rest else some (.error e)

/-- A loop that succeeds does so by one of its attempts. -/
theorem mem_of_recover {α : Type} {maxAttempts attempt : Nat} {results : List (Except DomainError α)} {outcome : α}
    (h : recover maxAttempts attempt results = some (.ok outcome)) : .ok outcome ∈ results := by
  fun_induction recover maxAttempts attempt results with
  | case1 => cases h
  | case2 => cases h; exact List.mem_cons_self ..
  | case3 attempt e rest again ih => exact List.mem_cons_of_mem _ (ih h)
  | case4 => cases h

inductive FileEvent where
  | attempt (a : Attempt)
  | others (path : Path) (content : Option Bytes)

section
variable (hash : Bytes → String) (req : SendRequest) (destDir : Path)

def history : (Path → Option Bytes) → List FileEvent → List ((Path → Option Bytes) × Attempt)
  | _, [] => []
  | disk, .attempt a :: rest => (disk, a) :: history (a.exchange hash req destDir disk).receipt.disk rest
  | disk, .others path content :: rest => history (Function.update disk path content) rest

def Attempt.claim (a : Attempt) (disk : Path → Option Bytes) : Except DomainError (Path × Path) :=
  claimDestination a.env.heldFirst (a.env.probe.stat disk) a.env.heldSecond (req.dest destDir)

end

/-- A staging file that is longer than the source and starts with all of it. -/
def Overlong (content : Bytes) : Option Bytes → Prop
  | none => False
  | some part => content ≠ [] ∧ content.length < part.length ∧ part.take content.length = content

structure Sound (hash : Bytes → String) (req : SendRequest) (destDir : Path) (disk : Path → Option Bytes) (a : Attempt) :
    Prop where
  receiver : (a.exchange hash req destDir disk).receipt.result = .ok .completed →
    ∃ path, (a.exchange hash req destDir disk).receipt.finalized = some (path, req.content) ∧
      (a.exchange hash req destDir disk).receipt.disk path = some req.content
  sender : (a.exchange hash req destDir disk).sender = .ok .completed →
    (a.exchange hash req destDir disk).receipt.result = .ok .completed
  /-- A failed verification removes the staging file, if it can be removed. -/
  poisoned : ∀ ack detail, (a.exchange hash req destDir disk).receipt.sent = [ack, .verify false] →
    (a.exchange hash req destDir disk).receipt.result = .error (.integrity detail) → a.env.removable = true →
    ∀ dest part, a.claim req destDir disk = .ok (dest, part) → (a.exchange hash req destDir disk).receipt.disk part = none

inductive Finish (o : Opened) (env : FileEnv) (s : FileReceiver) (r : Receipt) : Prop where
  | published (path : Path) (ended : s.ended = some (.ok (.completed, true))) (other : path ≠ o.part)
      (finalized : r.finalized = some (path, s.base ++ s.written))
      (disk : r.disk = Function.update
        (Function.update (Function.update o.disk o.part (some (s.base ++ s.written))) path (some (s.base ++ s.written)))
        o.part none)
      (result : r.result = .ok .completed)
  | withheld (n : Nat) (disk : r.disk = Function.update o.disk o.part (some (s.base ++ s.written.take n)))
      (result : r.result ≠ .ok .completed) (sent : .verify true ∉ r.sent)
      (kept : ∀ ack detail, r.sent = [ack, .verify false] → r.result = .error (.integrity detail) → env.removable = false)
  | removed (disk : r.disk = Function.update (Function.update o.disk o.part (some (s.base ++ s.written))) o.part none)
      (result : r.result ≠ .ok .completed) (sent : .verify true ∉ r.sent)

theorem finish_cases (o : Opened) (env : FileEnv) (name : Path) (s : FileReceiver) :
    Finish o env s (o.finish env name s) := by
  have all : s.base ++ s.written = s.base ++ s.written.take s.written.length := by rw [List.take_length]
  unfold Opened.finish
  dsimp only
  split
  · exact .withheld env.kept rfl nofun (by simp) nofun
  · exact .withheld env.kept rfl nofun (by simp) nofun
  · next outcome integrityOk ended =>
    have quiet : Control.verify true ∉ (if s.told = true then [Control.resumeAck (UInt64.ofNat o.existing), .cancel] else
        [.resumeAck (UInt64.ofNat o.existing)]) := by
      split
      · simp
      · simp
    have unverified : Control.verify true ∉ (if outcome = .completed then
        [Control.resumeAck (UInt64.ofNat o.existing), .verify false] else
        if s.told = true then [.resumeAck (UInt64.ofNat o.existing), .cancel] else [.resumeAck (UInt64.ofNat o.existing)]) := by
      split
      · simp
      · exact quiet
    split
    · exact .withheld env.kept rfl nofun unverified nofun
    · exact .withheld env.kept rfl nofun unverified nofun
    · split
      · exact .withheld s.written.length (by rw [← all]) nofun quiet nofun
      · cases removable : env.removable with
        | true => exact .removed rfl nofun (by simp)
        | false => exact .withheld s.written.length (by rw [← all]; rfl) nofun (by simp) fun _ _ _ _ => removable
      · exact .withheld s.written.length (by rw [← all]) nofun (by simp) nofun
      · split
        · exact .withheld s.written.length (by rw [← all]) nofun (by simp) nofun
        · next free =>
          refine .published _ ended ?_ rfl rfl rfl
          intro eq
          rw [eq, Function.update_self] at free
          cases free

/-- A verified file is published where its storage lets it. -/
theorem finish_verified (o : Opened) (env : FileEnv) (name : Path) {s : FileReceiver} {n : Nat}
    (ended : s.ended = some (.ok (.completed, true))) (flushed : env.flushError = none ∧ env.closeError = none)
    (named : env.finalizing = .ok n) (free : o.disk (uniqueCandidate o.dest n) = none)
    (other : uniqueCandidate o.dest n ≠ o.part) :
    (o.finish env name s).result = .ok .completed ∧
    (o.finish env name s).sent = [.resumeAck (UInt64.ofNat o.existing), .verify true] := by
  have placed : Function.update o.disk o.part (some (s.base ++ s.written)) (uniqueCandidate o.dest n) = none := by
    rw [Function.update_of_ne other, free]
  simp only [Opened.finish, ended, flushed, named, placed, and_self]

section
variable {hash : Bytes → String} {req : SendRequest} {destDir : Path} {disk : Path → Option Bytes} {a : Attempt}

/-- What `claim_destination` and the staging file at the start make of an attempt. -/
theorem openPart_ok {env : FileEnv} {dest : Path} {size : Nat} {o : Opened} (h : openPart env dest size disk = .ok o) :
    claimDestination env.heldFirst (env.probe.stat disk) env.heldSecond dest = .ok (o.dest, o.part) ∧
    o.disk = disk ∧ o.existing = min o.prior.length size := by
  unfold openPart at h
  split at h
  · cases h
  · split at h
    · cases h
    · next claimed =>
      dsimp only at h
      split at h
      · cases h
      · cases h
      · cases h
      · cases h
        exact ⟨claimed, rfl, rfl⟩

/-- A receive that gets no staging file leaves the disk as it was. -/
theorem openPart_error {env : FileEnv} {dest : Path} {size : Nat} {r : Receipt} (h : openPart env dest size disk = .error r) :
    r.disk = disk ∧ r.result ≠ .ok .completed ∧ ∀ ok, .verify ok ∉ r.sent := by
  unfold openPart at h
  split at h
  · cases h
    exact ⟨rfl, by rintro ⟨⟩, by simp⟩
  · split at h
    · cases h
      exact ⟨rfl, by rintro ⟨⟩, by simp⟩
    · dsimp only at h
      split at h
      · cases h
        exact ⟨rfl, by rintro ⟨⟩, by simp⟩
      · cases h
        exact ⟨rfl, by rintro ⟨⟩, by simp⟩
      · cases h
        exact ⟨rfl, by rintro ⟨⟩, by simp⟩
      · cases h

/-- The sender takes up the offset the receiver named. -/
theorem heard_offset {offset : Nat} (h : offset ≤ req.content.length) :
    min (UInt64.ofNat offset).toNat req.content.length = offset := by
  rw [UInt64.toNat_ofNat_of_lt' (Nat.lt_of_le_of_lt h req.fits), Nat.min_eq_left h]

/-- What the loop of an attempt took: part of the source from the offset on, all of it if
it completed. -/
theorem took (a : Attempt) (o : Opened) (offset : o.existing ≤ req.content.length) :
    FileReceiver.Took hash (req.checksum hash o.existing) (req.chunks o.existing) o.start (a.loop hash req o) := by
  unfold Attempt.loop
  dsimp only
  rw [heard_offset offset]
  apply FileReceiver.took_of_deliver _ a.slots rfl
  split
  · exact .cut _
  · exact frames_sends ..

theorem chunks_flatten (req : SendRequest) (offset : Nat) : (req.chunks offset).flatten = req.content.drop offset :=
  readChunks_flatten (Nat.le_max_left ..) _ _ (Nat.le_refl _)

/-- The file an attempt builds from a staging file whose hashed part is the source's. -/
theorem built_eq_iff {prior content : Bytes} {existing : Nat} (least : existing = min prior.length content.length)
    (agree : prior.take existing = content.take existing) :
    (if 0 < existing then prior else []) ++ content.drop existing = content ↔ ¬ Overlong content (some prior) := by
  by_cases long : content.length < prior.length
  · obtain rfl : existing = content.length := by omega
    rw [List.take_length] at agree
    rw [List.drop_length, List.append_nil]
    by_cases empty : content = []
    · simp [Overlong, empty]
    · have pos : 0 < content.length := List.length_pos_iff.mpr empty
      rw [if_pos pos]
      refine ⟨fun eq => absurd (congrArg List.length eq) (by omega), fun fine => absurd ⟨empty, long, agree⟩ fine⟩
  · have short : ¬ Overlong content (some prior) := fun overlong => long overlong.2.1
    obtain rfl : existing = prior.length := by omega
    rw [List.take_length] at agree
    refine ⟨fun _ => short, fun _ => ?_⟩
    have whole : (if 0 < prior.length then prior else []) = prior := by
      split
      · rfl
      · next none => exact (List.eq_nil_of_length_eq_zero (by omega)).symm
    rw [whole]
    calc
      prior ++ content.drop prior.length = content.take prior.length ++ content.drop prior.length :=
        congrArg (· ++ content.drop prior.length) agree
      _ = content := List.take_append_drop ..

/-- What an attempt with an open staging file leaves. -/
theorem exchange_of_open (hash : Bytes → String) {o : Opened}
    (h : openPart a.env (req.dest destDir) req.content.length disk = .ok o) :
    FileReceiver.Took hash (req.checksum hash o.existing) (req.chunks o.existing) o.start (a.loop hash req o) ∧
    (a.exchange hash req destDir disk).receipt = o.finish a.env (sanitizeFileName req.name) (a.loop hash req o) := by
  have offset : o.existing ≤ req.content.length := by
    rw [(openPart_ok h).2.2]
    exact Nat.min_le_right ..
  refine ⟨took a o offset, ?_⟩
  simp only [Attempt.exchange, h]

theorem exchange_of_error {r : Receipt} (h : openPart a.env (req.dest destDir) req.content.length disk = .error r) :
    (a.exchange hash req destDir disk).receipt = r := by
  simp only [Attempt.exchange, h]

/-- The published file, for an attempt that completed. -/
theorem completed_exchange (collisionFree : Function.Injective hash)
    (h : (a.exchange hash req destDir disk).receipt.result = .ok .completed) :
    ∃ o path, openPart a.env (req.dest destDir) req.content.length disk = .ok o ∧
      o.prior.take o.existing = req.content.take o.existing ∧
      (a.exchange hash req destDir disk).receipt.finalized = some (path, o.start.base ++ req.content.drop o.existing) ∧
      (a.exchange hash req destDir disk).receipt.disk path = some (o.start.base ++ req.content.drop o.existing) := by
  cases opened : openPart a.env (req.dest destDir) req.content.length disk with
  | error r =>
    rw [exchange_of_error opened] at h
    exact absurd h (openPart_error opened).2.1
  | ok o =>
    obtain ⟨took, receipt⟩ := exchange_of_open hash opened
    generalize a.loop hash req o = s at took receipt
    rw [receipt] at h ⊢
    cases finish_cases o a.env (sanitizeFileName req.name) s with
    | published path ended other finalized disk result =>
      obtain ⟨whole, verified⟩ := took.whole true ended
      rw [chunks_flatten] at whole verified
      have file : s.base ++ s.written = o.start.base ++ req.content.drop o.existing := by
        rw [took.base, whole]
        rfl
      have agree : o.prior.take o.existing ++ req.content.drop o.existing =
          req.content.take o.existing ++ req.content.drop o.existing := by
        have same := of_decide_eq_true verified.symm
        rw [SendRequest.checksum, chunks_flatten] at same
        exact collisionFree same
      refine ⟨o, path, rfl, List.append_cancel_right agree, by rw [finalized, file], ?_⟩
      rw [disk, Function.update_of_ne other, Function.update_self, file]
    | withheld n disk result => exact absurd h result
    | removed disk result => exact absurd h result

/-- A missing staging file counts as an empty one. -/
theorem overlong_getD (content : Bytes) (part : Option Bytes) :
    Overlong content (some (part.getD [])) ↔ Overlong content part := by
  cases part with
  | none => exact ⟨fun overlong => absurd overlong.2.1 (Nat.not_lt_zero _), False.elim⟩
  | some part => exact Iff.rfl

/-- The published file is the source unless the staging file was longer. -/
theorem completed_iff (collisionFree : Function.Injective hash)
    (h : (a.exchange hash req destDir disk).receipt.result = .ok .completed) :
    ∃ dest part path bytes, a.claim req destDir disk = .ok (dest, part) ∧
      (a.exchange hash req destDir disk).receipt.finalized = some (path, bytes) ∧
      (a.exchange hash req destDir disk).receipt.disk path = some bytes ∧
      (bytes = req.content ↔ ¬ Overlong req.content (disk part)) := by
  obtain ⟨o, path, opened, agree, finalized, placed⟩ := completed_exchange collisionFree h
  obtain ⟨claimed, same, least⟩ := openPart_ok opened
  refine ⟨o.dest, o.part, path, _, claimed, finalized, placed, ?_⟩
  rw [← same, ← overlong_getD]
  exact built_eq_iff least agree

theorem verify_of_recvVerify {answers : List Control} {ok : Bool}
    (h : recvVerify (answers.map .control) = .ok ok) : .verify ok ∈ answers := by
  induction answers with
  | nil => cases h
  | cons c answers ih =>
    cases c with
    | verify answer =>
      cases h
      exact List.mem_cons_self ..
    | cancel => cases h
    | resumeAck offset => exact List.mem_cons_of_mem _ (ih h)
    | complete checksum => exact List.mem_cons_of_mem _ (ih h)
    | pause => exact List.mem_cons_of_mem _ (ih h)
    | resume => exact List.mem_cons_of_mem _ (ih h)

theorem recvResumeAck_rest {answers : List Control} {offset : UInt64} {rest : List StreamIncoming}
    (h : recvResumeAck (answers.map .control) = .ok (offset, rest)) :
    ∃ more : List Control, rest = more.map .control ∧ ∀ c ∈ more, c ∈ answers := by
  induction answers with
  | nil => cases h
  | cons c answers ih =>
    have skip (h : recvResumeAck (answers.map .control) = .ok (offset, rest)) :
        ∃ more : List Control, rest = more.map .control ∧ ∀ x ∈ more, x ∈ c :: answers := by
      obtain ⟨more, eq, mem⟩ := ih h
      exact ⟨more, eq, fun x here => List.mem_cons_of_mem _ (mem x here)⟩
    cases c with
    | resumeAck offset =>
      cases h
      exact ⟨answers, rfl, fun x here => List.mem_cons_of_mem _ here⟩
    | verify answer => exact skip h
    | cancel => exact skip h
    | complete checksum => exact skip h
    | pause => exact skip h
    | resume => exact skip h

/-- A send is completed only by the receiver's verdict. -/
theorem verdict_of_completed {stop : Option SendStop} {answers : List Control}
    (h : sendFile stop (answers.map .control) = .ok .completed) : .verify true ∈ answers := by
  unfold sendFile at h
  split at h
  · cases h
  · next offset rest acked =>
    obtain ⟨more, rfl, mem⟩ := recvResumeAck_rest acked
    split at h
    · cases h
    · cases h
    · split at h
      · cases h
      · next verified => exact mem _ (verify_of_recvVerify verified)
      · cases h

theorem completed_of_sender (h : (a.exchange hash req destDir disk).sender = .ok .completed) :
    (a.exchange hash req destDir disk).receipt.result = .ok .completed := by
  have verdict : Control.verify true ∈ (a.exchange hash req destDir disk).receipt.sent :=
    List.mem_of_mem_take (verdict_of_completed h)
  cases opened : openPart a.env (req.dest destDir) req.content.length disk with
  | error r =>
    rw [exchange_of_error opened] at verdict
    exact absurd verdict ((openPart_error opened).2.2 true)
  | ok o =>
    obtain ⟨-, receipt⟩ := exchange_of_open hash opened
    generalize a.loop hash req o = s at receipt
    rw [receipt] at verdict ⊢
    cases finish_cases o a.env (sanitizeFileName req.name) s with
    | published path ended other finalized disk result => exact result
    | withheld n disk result sent => exact absurd verdict sent
    | removed disk result sent => exact absurd verdict sent

theorem poisoned_removed {ack : Control} {detail : String}
    (sent : (a.exchange hash req destDir disk).receipt.sent = [ack, .verify false])
    (failed : (a.exchange hash req destDir disk).receipt.result = .error (.integrity detail))
    (removable : a.env.removable = true) {dest part : Path} (claimed : a.claim req destDir disk = .ok (dest, part)) :
    (a.exchange hash req destDir disk).receipt.disk part = none := by
  cases opened : openPart a.env (req.dest destDir) req.content.length disk with
  | error r =>
    rw [exchange_of_error opened] at sent
    exact absurd (sent ▸ List.mem_cons_of_mem _ (List.mem_cons_self ..)) ((openPart_error opened).2.2 false)
  | ok o =>
    obtain ⟨-, receipt⟩ := exchange_of_open hash opened
    generalize a.loop hash req o = s at receipt
    have same := (openPart_ok opened).1
    cases same.symm.trans claimed
    rw [receipt] at sent failed ⊢
    cases finish_cases o a.env (sanitizeFileName req.name) s with
    | published path ended other finalized disk result => exact nomatch failed.symm.trans result
    | withheld n disk result _ kept => exact nomatch removable.symm.trans (kept ack detail sent failed)
    | removed disk result => rw [disk, Function.update_self]

/-- An attempt whose staging file is not too long is sound. -/
theorem attempt_sound (collisionFree : Function.Injective hash)
    (clean : ∀ dest part, a.claim req destDir disk = .ok (dest, part) → ¬ Overlong req.content (disk part)) :
    Sound hash req destDir disk a := by
  refine ⟨fun completed => ?_, completed_of_sender, fun ack detail sent failed removable dest part claimed =>
    poisoned_removed sent failed removable claimed⟩
  obtain ⟨dest, part, path, bytes, claimed, finalized, placed, same⟩ := completed_iff collisionFree completed
  obtain rfl := same.mpr (clean dest part claimed)
  exact ⟨path, finalized, placed⟩

def Attempt.Alone (a : Attempt) : Prop := a.env.heldFirst = []

theorem claim_alone (alone : a.Alone) : a.claim req destDir disk = .ok (req.dest destDir, partPath (req.dest destDir)) := by
  unfold Attempt.claim claimDestination
  rw [alone]
  rfl

/-- The staging file never outgrows the source. -/
theorem grown_not_overlong {prior content : Bytes} {existing : Nat} (least : existing = min prior.length content.length)
    (fine : ¬ Overlong content (some prior)) (k n : Nat) :
    ¬ Overlong content (some ((if 0 < existing then prior else []) ++ ((content.drop existing).take k).take n)) := by
  have tail : (((content.drop existing).take k).take n).length ≤ content.length - existing := by
    rw [List.length_take, List.length_take, List.length_drop]
    omega
  by_cases long : 0 < existing ∧ content.length < prior.length
  · obtain rfl : existing = content.length := by omega
    rw [if_pos long.1, List.drop_length, List.take_nil, List.take_nil, List.append_nil]
    exact fine
  · rintro ⟨-, longer, -⟩
    rw [List.length_append] at longer
    split at longer
    · omega
    · rw [List.length_nil] at longer
      omega

/-- An attempt with nobody else about leaves a staging file that is not too long. -/
theorem exchange_not_overlong (alone : a.Alone) (fine : ¬ Overlong req.content (disk (partPath (req.dest destDir)))) :
    ¬ Overlong req.content ((a.exchange hash req destDir disk).receipt.disk (partPath (req.dest destDir))) := by
  cases opened : openPart a.env (req.dest destDir) req.content.length disk with
  | error r =>
    rw [exchange_of_error opened, (openPart_error opened).1]
    exact fine
  | ok o =>
    obtain ⟨took, receipt⟩ := exchange_of_open hash opened
    generalize a.loop hash req o = s at took receipt
    obtain ⟨claimed, same, least⟩ := openPart_ok opened
    obtain ⟨-, part⟩ := Prod.mk.inj (Except.ok.inj (claimed.symm.trans (claim_alone alone)))
    rw [receipt, ← part]
    rw [← part, ← same, ← overlong_getD] at fine
    cases finish_cases o a.env (sanitizeFileName req.name) s with
    | published path ended other finalized disk result =>
      rw [disk, Function.update_self]
      exact id
    | removed disk result =>
      rw [disk, Function.update_self]
      exact id
    | withheld n disk result =>
      obtain ⟨k, written⟩ := took.written
      rw [chunks_flatten] at written
      rw [disk, Function.update_self, took.base, written]
      exact grown_not_overlong least fine k n

/-- Nothing goes wrong on either side, and the file is given the `n`-th of its names. -/
def Attempt.undisturbed (req : SendRequest) (n : Nat) : Attempt where
  env := ⟨none, [], ⟨fun _ => none, fun _ => none⟩, [], none, none, none, 0, none, none, true, .ok n⟩
  slots := List.replicate (req.content.length + 1) (.next none)
  stop := none
  heard := 2

/-- Chunks within the declared size, and `Complete`, end the loop. -/
theorem run_completes {size : Nat} {checksum : String} (chunks : List Bytes) {s : FileReceiver} (alive : s.ended = none)
    (room : s.received + chunks.flatten.length ≤ size) {m : Nat} (enough : chunks.length < m) :
    ∃ ok, (s.run hash size (deliver (List.replicate m (.next none))
      (chunks.map StreamIncoming.chunk ++ [.control (.complete checksum)]))).ended = some (.ok (.completed, ok)) := by
  induction chunks generalizing s m with
  | nil =>
    obtain ⟨m, rfl⟩ := Nat.exists_eq_succ_of_ne_zero (Nat.ne_of_gt enough)
    have ended : (s.step hash size (.control (.complete checksum), none)).ended =
        some (.ok (.completed, hash s.hashed = checksum)) := by
      simp only [FileReceiver.step, alive]
    refine ⟨hash s.hashed = checksum, ?_⟩
    rw [List.replicate_succ, List.map_nil, List.nil_append, deliver, FileReceiver.run_cons,
      FileReceiver.run_of_ended ended, ended]
  | cons payload chunks ih =>
    obtain ⟨m, rfl⟩ := Nat.exists_eq_succ_of_ne_zero (Nat.ne_of_gt (Nat.lt_of_le_of_lt (Nat.zero_le _) enough))
    rw [List.flatten_cons, List.length_append] at room
    have fits : ¬ size < s.received + payload.length := by omega
    let next : FileReceiver :=
      { s with
        written := s.written ++ payload
        hashed := s.hashed ++ payload
        received := s.received + payload.length }
    have accepted : s.step hash size (.chunk payload, none) = next := by
      simp only [FileReceiver.step, alive, fits, if_false, next]
    rw [List.replicate_succ, List.map_cons, List.cons_append, deliver, FileReceiver.run_cons, accepted]
    have room' : next.received + chunks.flatten.length ≤ size := by
      dsimp only [next]
      omega
    exact ih (s := next) alive room' (Nat.lt_of_succ_lt_succ enough)

/-- An undisturbed attempt completes on both sides when the hashed prefix is the source's. -/
theorem undisturbed_completes (hash : Bytes → String) {n existing : Nat} {prior : Bytes}
    (held : prior = (disk (partPath (req.dest destDir))).getD []) (least : existing = min prior.length req.content.length)
    (agree : prior.take existing = req.content.take existing) (free : disk (uniqueCandidate (req.dest destDir) n) = none)
    (other : uniqueCandidate (req.dest destDir) n ≠ partPath (req.dest destDir)) :
    ((Attempt.undisturbed req n).exchange hash req destDir disk).receipt.result = .ok .completed ∧
    ((Attempt.undisturbed req n).exchange hash req destDir disk).sender = .ok .completed := by
  let o : Opened := ⟨disk, req.dest destDir, partPath (req.dest destDir), existing⟩
  have offset : existing ≤ req.content.length := by omega
  have opened : openPart (Attempt.undisturbed req n).env (req.dest destDir) req.content.length disk = .ok o := by
    dsimp only [o]
    rw [least, held]
    rfl
  obtain ⟨took, receipt⟩ := exchange_of_open hash opened
  obtain ⟨ok, ended⟩ : ∃ ok, ((Attempt.undisturbed req n).loop hash req o).ended = some (.ok (.completed, ok)) := by
    unfold Attempt.loop
    dsimp only [o]
    rw [heard_offset offset]
    apply run_completes (req.chunks existing) rfl
    · rw [chunks_flatten, List.length_drop]
      dsimp only [Opened.start]
      omega
    · have count : (req.chunks existing).length ≤ (req.content.drop existing).length := readChunks_length ..
      rw [List.length_drop] at count
      omega
  have verified : ok = true := by
    rw [(took.whole ok ended).2]
    apply decide_eq_true
    rw [SendRequest.checksum]
    dsimp only [Opened.start, Opened.prior, o]
    rw [← held, agree]
  rw [verified] at ended
  have finished := finish_verified o (Attempt.undisturbed req n).env (sanitizeFileName req.name) ended ⟨rfl, rfl⟩ rfl free other
  rw [← receipt] at finished
  refine ⟨finished.1, ?_⟩
  unfold Attempt.exchange at finished ⊢
  dsimp only at finished ⊢
  rw [finished.2]
  rfl

end

/-- An undisturbed attempt on too long a staging file completes with that file. -/
theorem undisturbed_unsound {hash : Bytes → String} (collisionFree : Function.Injective hash) {req : SendRequest}
    {destDir : Path} {disk : Path → Option Bytes} {n : Nat}
    (overlong : Overlong req.content (disk (partPath (req.dest destDir))))
    (free : disk (uniqueCandidate (req.dest destDir) n) = none) :
    ¬ Sound hash req destDir disk (.undisturbed req n) := by
  intro sound
  have other : uniqueCandidate (req.dest destDir) n ≠ partPath (req.dest destDir) := by
    intro eq
    rw [← eq, free] at overlong
    exact overlong
  have long := (overlong_getD ..).mpr overlong
  have least : req.content.length = min ((disk (partPath (req.dest destDir))).getD []).length req.content.length :=
    (Nat.min_eq_right (Nat.le_of_lt long.2.1)).symm
  have agree : ((disk (partPath (req.dest destDir))).getD []).take req.content.length =
      req.content.take req.content.length := by
    rw [List.take_length]
    exact long.2.2
  obtain ⟨completed, -⟩ := undisturbed_completes hash rfl least agree free other
  obtain ⟨dest, part, path, bytes, claimed, finalized, -, same⟩ := completed_iff collisionFree completed
  obtain ⟨path', promised, -⟩ := sound.receiver completed
  have alone : (Attempt.undisturbed req n).Alone := rfl
  cases (claim_alone alone).symm.trans claimed
  cases finalized.symm.trans promised
  exact same.mp rfl overlong

theorem history_alone {hash : Bytes → String} {req : SendRequest} {destDir : Path} {disk : Path → Option Bytes}
    (fine : ¬ Overlong req.content (disk (partPath (req.dest destDir)))) (attempts : List Attempt)
    (alone : ∀ a ∈ attempts, a.Alone) :
    ∀ start ∈ history hash req destDir disk (attempts.map .attempt),
      start.2.Alone ∧ ¬ Overlong req.content (start.1 (partPath (req.dest destDir))) := by
  induction attempts generalizing disk with
  | nil =>
    intro start mem
    rw [List.map_nil, history] at mem
    cases mem
  | cons a attempts ih =>
    intro start mem
    rw [List.map_cons, history] at mem
    have first := alone a (List.mem_cons_self ..)
    rcases List.mem_cons.mp mem with rfl | later
    · exact ⟨first, fine⟩
    · exact ih (exchange_not_overlong first fine) (fun b here => alone b (List.mem_cons_of_mem _ here)) start later

/-- The source's bytes are in place, put there by one of the attempts. -/
def Delivered (hash : Bytes → String) (req : SendRequest) (destDir : Path) (disk : Path → Option Bytes)
    (events : List FileEvent) : Prop :=
  ∃ start ∈ history hash req destDir disk events, ∃ path,
    (start.2.exchange hash req destDir start.1).receipt.finalized = some (path, req.content) ∧
    (start.2.exchange hash req destDir start.1).receipt.disk path = some req.content

/-- A completed transfer has put the source in place, on whatever links and from whatever
staging file that is not longer than the source with all of it in front. -/
theorem received_file_is_source (hash : Bytes → String) (collisionFree : Function.Injective hash) (req : SendRequest)
    (destDir : Path) (disk : Path → Option Bytes) :
    -- among other receives and through any number of attempts
    (∀ events : List FileEvent,
      (∀ start ∈ history hash req destDir disk events, ∀ dest part,
        start.2.claim req destDir start.1 = .ok (dest, part) → ¬ Overlong req.content (start.1 part)) →
      (∀ start ∈ history hash req destDir disk events, Sound hash req destDir start.1 start.2) ∧
      (∀ maxAttempts, recover maxAttempts 0 ((history hash req destDir disk events).map fun start =>
          (start.2.exchange hash req destDir start.1).receipt.result) = some (.ok .completed) →
        Delivered hash req destDir disk events) ∧
      ∀ maxAttempts, recover maxAttempts 0 ((history hash req destDir disk events).map fun start =>
          (start.2.exchange hash req destDir start.1).sender) = some (.ok .completed) →
        Delivered hash req destDir disk events) ∧
    -- alone: what was there at first decides
    ((∃ n, disk (uniqueCandidate (req.dest destDir) n) = none) →
      ((∀ attempts : List Attempt, (∀ a ∈ attempts, a.Alone) →
          ∀ start ∈ history hash req destDir disk (attempts.map .attempt), Sound hash req destDir start.1 start.2) ↔
        ¬ Overlong req.content (disk (partPath (req.dest destDir))))) ∧
    -- with the staging file gone, or with a right start, an undisturbed attempt succeeds
    (∀ n, disk (uniqueCandidate (req.dest destDir) n) = none →
      uniqueCandidate (req.dest destDir) n ≠ partPath (req.dest destDir) →
      (disk (partPath (req.dest destDir))).getD [] <+: req.content →
      ((Attempt.undisturbed req n).exchange hash req destDir disk).receipt.result = .ok .completed ∧
      ((Attempt.undisturbed req n).exchange hash req destDir disk).sender = .ok .completed) := by
  refine ⟨fun events clean => ?_, fun room => ⟨fun sound => ?_, fun fine attempts alone start mem => ?_⟩,
    fun n free other begun => ?_⟩
  · have sound : ∀ start ∈ history hash req destDir disk events, Sound hash req destDir start.1 start.2 :=
      fun start mem => attempt_sound collisionFree (clean start mem)
    refine ⟨sound, fun maxAttempts recovered => ?_, fun maxAttempts recovered => ?_⟩
    · obtain ⟨start, mem, result⟩ := List.mem_map.mp (mem_of_recover recovered)
      exact ⟨start, mem, (sound start mem).receiver result⟩
    · obtain ⟨start, mem, result⟩ := List.mem_map.mp (mem_of_recover recovered)
      exact ⟨start, mem, (sound start mem).receiver ((sound start mem).sender result)⟩
  · intro overlong
    obtain ⟨n, free⟩ := room
    exact undisturbed_unsound collisionFree overlong free
      (sound [.undisturbed req n] (by simp [Attempt.Alone, Attempt.undisturbed]) (disk, .undisturbed req n)
        (List.mem_cons_self ..))
  · obtain ⟨lonely, ok⟩ := history_alone fine attempts alone start mem
    apply attempt_sound collisionFree
    intro dest part claimed
    rw [claim_alone lonely] at claimed
    cases claimed
    exact ok
  · have least : ((disk (partPath (req.dest destDir))).getD []).length =
        min ((disk (partPath (req.dest destDir))).getD []).length req.content.length :=
      (Nat.min_eq_left begun.length_le).symm
    refine undisturbed_completes hash rfl least ?_ free other
    rw [List.take_length]
    exact List.prefix_iff_eq_take.mp begun

def oneByte : SendRequest := ⟨"x.txt".toList, [120], 65536, by decide⟩

theorem one_byte_received :
    ((Attempt.undisturbed oneByte 0).exchange Sync.digest oneByte "/in".toList fun _ => none).receipt.result =
      .ok .completed ∧
    ((Attempt.undisturbed oneByte 0).exchange Sync.digest oneByte "/in".toList fun _ => none).sender = .ok .completed :=
  (received_file_is_source Sync.digest Sync.digest_injective oneByte "/in".toList fun _ => none).2.2 0 rfl
    (by decide +kernel) (List.nil_prefix)

/-- `x` is received onto a staging file that holds `xy`: both sides report success, and the
file in place is `xy`. -/
theorem longer_part_published :
    let disk : Path → Option Bytes := fun p => if p = "/in/x.txt.part".toList then some [120, 121] else none
    let both := (Attempt.undisturbed oneByte 0).exchange Sync.digest oneByte "/in".toList disk
    both.receipt.result = .ok .completed ∧ both.sender = .ok .completed ∧
    both.receipt.finalized = some ("/in/x.txt".toList, [120, 121]) ∧
    both.receipt.disk "/in/x.txt".toList = some [120, 121] ∧
    ¬ Sound Sync.digest oneByte "/in".toList disk (.undisturbed oneByte 0) := by
  refine ⟨by decide +kernel, by decide +kernel, by decide +kernel, by decide +kernel, ?_⟩
  refine undisturbed_unsound Sync.digest_injective ?_ (by decide +kernel)
  refine ⟨by decide, ?_, ?_⟩
  · decide +kernel
  · decide +kernel

end PeerBeam.Transfer
