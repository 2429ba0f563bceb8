import PeerBeam.Chat.UpdateRuns

/-! Deleting messages. What is queued or still being staged is kept: the outbox is read first, and rows
are deleted by what it held then. -/
namespace PeerBeam.Chat

/-- The ids the outbox holds for a peer, whose rows a delete must leave. -/
structure KeepRule where
  queued : List String

namespace KeepRule

/-- The whole outbox, or none of it: an entry that does not decode may be anyone's. -/
def of (peer : DeviceId) : List (String × Option OutboxEntry) → Except CallError KeepRule
  | [] => .ok ⟨[]⟩
  | (key, none) :: _ => .error (.queueUnreadable key)
  | (_, some e) :: rest =>
    (of peer rest).map fun rule =>
      if e.peerId = peer ∧ e.kind ≠ .decline then ⟨e.messageId :: rule.queued⟩ else rule

/-- A row that does not decode is not being staged as far as anyone can tell. -/
def keeps (rule : KeepRule) (key : String) (value : Option ChatRecord) : Bool :=
  rule.queued.contains key || value.any (·.status = .staging)

def Judges (rule : KeepRule) (rows : Rows ChatRecord) (kept : Bool) (id : String) : Prop :=
  ∃ value, rows[id]? = some value ∧ rule.keeps id value = kept

variable {peer : DeviceId} {raw : List (String × Option OutboxEntry)} {rule : KeepRule}

theorem mem_queued (h : of peer raw = .ok rule) (id : String) :
    id ∈ rule.queued ↔ ∃ key e, (key, some e) ∈ raw ∧ e.peerId = peer ∧ e.kind ≠ .decline ∧
      e.messageId = id := by
  induction raw generalizing rule with
  | nil => cases h; simp
  | cons row raw ih =>
    obtain ⟨key, _ | e⟩ := row
    · cases h
    · obtain ⟨later, rest, rfl⟩ := Outcome.ok_of_map h
      have split : id ∈ (if e.peerId = peer ∧ e.kind ≠ .decline then ⟨e.messageId :: later.queued⟩
          else later : KeepRule).queued ↔
          (e.peerId = peer ∧ e.kind ≠ .decline ∧ e.messageId = id) ∨ id ∈ later.queued := by
        split
        next own => simp [own.1, own.2, eq_comm]
        next other =>
          refine ⟨.inr, ?_⟩
          rintro (⟨own, kind, -⟩ | mem)
          · exact absurd ⟨own, kind⟩ other
          · exact mem
      rw [split, ih rest]
      constructor
      · rintro (own | ⟨key', e', mem, own⟩)
        · exact ⟨key, e, List.mem_cons_self, own⟩
        · exact ⟨key', e', List.mem_cons_of_mem _ mem, own⟩
      · rintro ⟨key', e', mem, own⟩
        rcases List.mem_cons.mp mem with same | mem
        · cases same
          exact .inl own
        · exact .inr ⟨key', e', mem, own⟩

variable (peer) in
theorem of_error (h : ∃ key, (key, none) ∈ raw) : ∃ key, of peer raw = .error (.queueUnreadable key) := by
  induction raw with
  | nil => simp at h
  | cons row raw ih =>
    obtain ⟨key, _ | e⟩ := row
    · exact ⟨key, rfl⟩
    · obtain ⟨key', mem⟩ := h
      have later : (key', none) ∈ raw := by simpa using mem
      obtain ⟨bad, failed⟩ := ih ⟨key', later⟩
      exact ⟨bad, by rw [of, failed]; rfl⟩

variable (peer) in
theorem of_ok (h : ∀ key, (key, none) ∉ raw) : ∃ rule, of peer raw = .ok rule := by
  induction raw with
  | nil => exact ⟨_, rfl⟩
  | cons row raw ih =>
    obtain ⟨key, _ | e⟩ := row
    · exact absurd List.mem_cons_self (h key)
    · obtain ⟨rule, rest⟩ := ih fun key' mem => h key' (List.mem_cons_of_mem _ mem)
      exact ⟨_, by rw [of, rest]; rfl⟩

end KeepRule

namespace Prog
open Program (ret fail)

def lift {α : Type} : Except CallError α → Prog α
  | .ok a => ret a
  | .error e => fail e

def establish (peer : DeviceId) : Prog KeepRule := do
  let raw ← ask .listOutbox
  lift (KeepRule.of peer raw)

/-- The loop of `delete_conversation`. -/
def deleteRows (peer : DeviceId) (keep : KeepRule) : List (String × Option ChatRecord) → Prog Nat
  | [] => ret 0
  | (key, value) :: rest =>
    if keep.keeps key value then deleteRows peer keep rest
    else do
      let gone ← ask (.deleteRow peer key)
      let removed ← deleteRows peer keep rest
      ret (removed + if gone then 1 else 0)

def deleteConversation (peer : DeviceId) : Prog Nat := do
  let keep ← establish peer
  let rows ← ask (.listRows peer)
  deleteRows peer keep rows

/-- The loop of `delete_messages`, with the ids that have been answered. -/
def deleteEach (peer : DeviceId) (keep : KeepRule) (seen : List String) :
    List String → Prog (Nat × List String)
  | [] => ret (0, [])
  | id :: rest =>
    if id ∈ seen then deleteEach peer keep seen rest
    else do
      match ← ask (.getRow peer id) with
      | none => deleteEach peer keep (id :: seen) rest
      | some value =>
        if keep.keeps id value then do
          let later ← deleteEach peer keep (id :: seen) rest
          ret (later.1, id :: later.2)
        else do
          let gone ← ask (.deleteRow peer id)
          let later ← deleteEach peer keep (id :: seen) rest
          ret (later.1 + (if gone then 1 else 0), later.2)

/-- How many rows are gone, and which ids are kept. -/
def deleteMessages (peer : DeviceId) (ids : List String) : Prog (Nat × List String) := do
  let keep ← establish peer
  deleteEach peer keep [] ids

def beginFileSend (now : Int) (peer : DeviceId) (r : FileRef) (path : String) : Prog Unit :=
  append (.fileOut now peer r ⟨displayName r.name, r.size, some path⟩ .staging)

end Prog

theorem ChatStore.setRows_setRows (s : ChatStore) (peer : DeviceId) (a b : Rows ChatRecord) :
    (s.setRows peer a).setRows peer b = s.setRows peer b := by
  have same : (s.conversations.insert peer a).insert peer b = s.conversations.insert peer b := by
    apply Std.ExtTreeMap.ext_getElem?
    intro other
    rw [SortedMap.get_insert, SortedMap.get_insert, SortedMap.get_insert]
    split <;> rfl
  rw [setRows, setRows, setRows, same]

namespace Disk

def without (d : Disk) (peer : DeviceId) (ids : List String) : Disk :=
  ids.foldl (fun d id => (d.exec (.deleteRow peer id)).2) d

theorem rows_without (d : Disk) (peer other : DeviceId) (ids : List String) (id : String) :
    ((d.without peer ids).store.rows other)[id]? =
      if peer = other ∧ id ∈ ids then none else (d.store.rows other)[id]? := by
  induction ids generalizing d with
  | nil => simp [without]
  | cons first ids ih =>
    rw [without, List.foldl_cons]
    refine (ih _).trans ?_
    rw [rows_deleteRow]
    by_cases own : peer = other
    · by_cases mem : id ∈ ids
      · rw [if_pos ⟨own, mem⟩, if_pos ⟨own, List.mem_cons_of_mem _ mem⟩]
      · rw [if_neg fun h => mem h.2]
        by_cases same : first = id
        · rw [if_pos ⟨own, same⟩, if_pos ⟨own, same ▸ List.mem_cons_self⟩]
        · rw [if_neg fun h => same h.2, if_neg]
          rintro ⟨-, mem'⟩
          exact (List.mem_cons.mp mem').elim (fun h => same h.symm) mem
    · rw [if_neg fun h => own h.1, if_neg fun h => own h.1, if_neg fun h => own h.1]

theorem without_rest (d : Disk) (peer : DeviceId) (ids : List String) :
    (d.without peer ids).store.outbox = d.store.outbox ∧
    (d.without peer ids).store.windows = d.store.windows ∧
    (d.without peer ids).store.landings = d.store.landings ∧ (d.without peer ids).blobs = d.blobs := by
  induction ids generalizing d with
  | nil => exact ⟨rfl, rfl, rfl, rfl⟩
  | cons first ids ih => exact ih _

theorem without_eq (d : Disk) (peer : DeviceId) {ids : List String} (some : ids ≠ []) :
    d.without peer ids = { d with
      store := d.store.setRows peer (ids.foldl (fun rows id => rows.erase id) (d.store.rows peer)) } := by
  induction ids generalizing d with
  | nil => exact absurd rfl some
  | cons first ids ih =>
    cases ids with
    | nil => rfl
    | cons second ids =>
      refine (ih _ (List.cons_ne_nil _ _)).trans ?_
      show ({ d with store := _ } : Disk) = _
      congr 1
      show ((d.store.setRows peer _).setRows peer _ : ChatStore) = _
      rw [ChatStore.setRows_setRows]
      congr 1
      show List.foldl _ ((d.store.setRows peer _).rows peer) _ = _
      rw [ChatStore.rows_setRows, if_pos rfl]
      rfl

/-- What is left depends on which rows are deleted, not on their order. -/
theorem without_congr (d : Disk) (peer : DeviceId) {ids ids' : List String}
    (same : ∀ id, id ∈ ids ↔ id ∈ ids') : d.without peer ids = d.without peer ids' := by
  by_cases none : ids = []
  · subst none
    have none' : ids' = [] := List.eq_nil_iff_forall_not_mem.mpr fun id mem =>
      absurd ((same id).mpr mem) List.not_mem_nil
    rw [none']
  · have some' : ids' ≠ [] := by
      rintro rfl
      exact none (List.eq_nil_iff_forall_not_mem.mpr fun id mem => absurd ((same id).mp mem) List.not_mem_nil)
    rw [without_eq d peer none, without_eq d peer some']
    have rows : ids.foldl (fun rows id => rows.erase id) (d.store.rows peer) =
        ids'.foldl (fun rows id => rows.erase id) (d.store.rows peer) := by
      apply Std.ExtTreeMap.ext_getElem?
      intro id
      rw [SortedMap.get_foldl_erase, SortedMap.get_foldl_erase]
      simp only [same]
    rw [rows]

end Disk

/-- A row that a delete must leave: a message queued for the peer needs it, or its file is being
staged. -/
def ChatStore.Kept (s : ChatStore) (peer : DeviceId) (id : String) : Prop :=
  (∃ (key : String) (e : OutboxEntry), s.outbox[key]? = some (some e) ∧ e.peerId = peer ∧
    e.kind ≠ .decline ∧ e.messageId = id) ∨
  ∃ rec, (s.rows peer)[id]? = some (some rec) ∧ rec.status = .staging

theorem KeepRule.keeps_iff {s : ChatStore} {peer : DeviceId} {rule : KeepRule}
    (h : KeepRule.of peer s.outbox.toList = .ok rule) {id : String} {value : Option ChatRecord}
    (stored : (s.rows peer)[id]? = some value) : rule.keeps id value = true ↔ s.Kept peer id := by
  rw [keeps, Bool.or_eq_true, List.contains_iff_mem, mem_queued h, ChatStore.Kept]
  simp only [Std.ExtTreeMap.mem_toList_iff_getElem?_eq_some]
  refine or_congr_right ?_
  rw [stored]
  cases value with
  | none => simp
  | some rec => simp

namespace Prog
variable (d : Disk) (peer : DeviceId) (keep : KeepRule)

theorem run_establish :
    (establish peer).run Disk.exec d = (KeepRule.of peer d.store.outbox.toList, d) := by
  rw [establish, Program.run_bind, run_ask]
  show (lift (KeepRule.of peer d.store.outbox.toList)).run Disk.exec d = _
  cases KeepRule.of peer d.store.outbox.toList <;> rfl

theorem run_deleteRows (rows : List (String × Option ChatRecord)) :
    ∃ removed, (deleteRows peer keep rows).run Disk.exec d = (.ok removed,
      d.without peer ((rows.filter fun row => !keep.keeps row.1 row.2).map Prod.fst)) := by
  induction rows generalizing d with
  | nil => exact ⟨0, rfl⟩
  | cons row rows ih =>
    obtain ⟨key, value⟩ := row
    rw [deleteRows, List.filter_cons]
    cases kept : keep.keeps key value with
    | true => exact ih d
    | false =>
      obtain ⟨removed, run⟩ := ih (d.exec (.deleteRow peer key)).2
      refine ⟨removed + if (d.store.rows peer)[key]?.isSome then 1 else 0, ?_⟩
      show (ask (.deleteRow peer key) >>= _).run Disk.exec d = _
      rw [Program.run_bind, run_ask]
      show Program.run _ (deleteRows peer keep rows >>= _) (d.exec (.deleteRow peer key)).2 = _
      rw [Program.run_bind, run]
      rfl

theorem run_deleteEach (seen ids : List String) :
    ∃ removed kept doomed, (deleteEach peer keep seen ids).run Disk.exec d =
        (.ok (removed, kept), d.without peer doomed) ∧
      (∀ id, id ∈ doomed ↔ id ∈ ids ∧ id ∉ seen ∧ keep.Judges (d.store.rows peer) false id) ∧
      ∀ id, id ∈ kept ↔ id ∈ ids ∧ id ∉ seen ∧ keep.Judges (d.store.rows peer) true id := by
  induction ids generalizing d seen with
  | nil => exact ⟨0, [], [], rfl, by simp, by simp⟩
  | cons first ids ih =>
    have later {P : String → Prop} (answered : first ∉ seen → ¬ P first) (id : String) :
        (id ∈ first :: ids ∧ id ∉ seen ∧ P id) ↔ id ∈ ids ∧ id ∉ first :: seen ∧ P id := by
      constructor
      · rintro ⟨mem, fresh, holds⟩
        have other : id ≠ first := by
          rintro rfl
          exact answered fresh holds
        exact ⟨(List.mem_cons.mp mem).resolve_left other,
          fun again => (List.mem_cons.mp again).elim other fresh, holds⟩
      · rintro ⟨mem, fresh, holds⟩
        exact ⟨List.mem_cons_of_mem _ mem, fun again => fresh (List.mem_cons_of_mem _ again), holds⟩
    have now {P : String → Prop} (fresh : first ∉ seen) (holds : P first) (id : String) :
        (id ∈ first :: ids ∧ id ∉ seen ∧ P id) ↔ id = first ∨ id ∈ ids ∧ id ∉ first :: seen ∧ P id := by
      by_cases same : id = first
      · subst same
        exact iff_of_true ⟨List.mem_cons_self, fresh, holds⟩ (.inl rfl)
      · simp [same]
    have again {P : String → Prop} (answered : first ∈ seen) (id : String) :
        (id ∈ first :: ids ∧ id ∉ seen ∧ P id) ↔ id ∈ ids ∧ id ∉ seen ∧ P id := by
      refine ⟨fun h => ⟨(List.mem_cons.mp h.1).resolve_left ?_, h.2⟩, fun h => ⟨List.mem_cons_of_mem _ h.1, h.2⟩⟩
      rintro rfl
      exact h.2.1 answered
    rw [deleteEach]
    split
    next answered =>
      obtain ⟨removed, kept, doomed, run, gone, stays⟩ := ih d seen
      exact ⟨removed, kept, doomed, run, fun id => (gone id).trans (again answered id).symm,
        fun id => (stays id).trans (again answered id).symm⟩
    next fresh =>
      rw [Program.run_bind, run_ask]
      have differ {value : Option ChatRecord} {kept other : Bool}
          (stored : (d.store.rows peer)[first]? = some value) (verdict : keep.keeps first value = kept)
          (wrong : kept ≠ other) : ¬ keep.Judges (d.store.rows peer) other first := by
        rintro ⟨value', there, verdict'⟩
        cases stored.symm.trans there
        exact wrong (verdict.symm.trans verdict')
      simp only [Disk.exec]
      cases stored : (d.store.rows peer)[first]? with
      | none =>
        have absent (verdict : Bool) : ¬ keep.Judges (d.store.rows peer) verdict first := by
          rintro ⟨value, there, -⟩
          cases stored.symm.trans there
        obtain ⟨removed, kept, doomed, run, gone, stays⟩ := ih d (first :: seen)
        exact ⟨removed, kept, doomed, run, fun id => (gone id).trans (later (fun _ => absent false) id).symm,
          fun id => (stays id).trans (later (fun _ => absent true) id).symm⟩
      | some value =>
        simp only
        cases kept : keep.keeps first value with
        | true =>
          have dies : ¬ keep.Judges (d.store.rows peer) false first := differ stored kept (by decide)
          obtain ⟨removed, kept', doomed, run, gone, stays⟩ := ih d (first :: seen)
          refine ⟨removed, first :: kept', doomed, ?_,
            fun id => (gone id).trans (later (fun _ => dies) id).symm, fun id => ?_⟩
          · show Program.run _ (deleteEach peer keep (first :: seen) ids >>= _) d = _
            rw [Program.run_bind, run]
            rfl
          · rw [List.mem_cons, stays]
            exact (now fresh ⟨value, stored, kept⟩ id).symm
        | false =>
          have same {verdict : Bool} {id : String} (away : id ∉ first :: seen) :
              keep.Judges ((d.exec (.deleteRow peer first)).2.store.rows peer) verdict id ↔
                keep.Judges (d.store.rows peer) verdict id := by
            have other : ¬ (peer = peer ∧ first = id) := by
              rintro ⟨-, rfl⟩
              exact away List.mem_cons_self
            rw [KeepRule.Judges, Disk.rows_deleteRow, if_neg other]
            rfl
          have survives : ¬ keep.Judges (d.store.rows peer) true first := differ stored kept (by decide)
          obtain ⟨removed, kept', doomed, run, gone, stays⟩ :=
            ih (d.exec (.deleteRow peer first)).2 (first :: seen)
          refine ⟨removed + if (d.store.rows peer)[first]?.isSome then 1 else 0, kept', first :: doomed, ?_,
            fun id => ?_, fun id => ?_⟩
          · show Program.run _ (ask (.deleteRow peer first) >>= _) d = _
            rw [Program.run_bind, run_ask]
            show Program.run _ (deleteEach peer keep (first :: seen) ids >>= _)
              (d.exec (.deleteRow peer first)).2 = _
            rw [Program.run_bind, run]
            rfl
          · rw [List.mem_cons, gone]
            refine Iff.trans (or_congr_right ?_) (now fresh ⟨value, stored, kept⟩ id).symm
            exact and_congr_right fun _ => and_congr_right fun away => same away
          · refine Iff.trans ?_ (later (fun _ => survives) id).symm
            rw [stays]
            exact and_congr_right fun _ => and_congr_right fun away => same away

end Prog

/-- What a delete of a whole conversation leaves. -/
structure Cleared (peer : DeviceId) (d d' : Disk) : Prop where
  kept : ∀ id, d.store.Kept peer id → (d'.store.rows peer)[id]? = (d.store.rows peer)[id]?
  gone : ∀ id, ¬ d.store.Kept peer id → (d'.store.rows peer)[id]? = none
  others : ∀ other, other ≠ peer → ∀ id : String, (d'.store.rows other)[id]? = (d.store.rows other)[id]?
  rest : d'.store.outbox = d.store.outbox ∧ d'.store.windows = d.store.windows ∧
    d'.store.landings = d.store.landings ∧ d'.blobs = d.blobs

theorem cleared_without {peer : DeviceId} {d : Disk} {doomed : List String}
    (h : ∀ id, id ∈ doomed ↔ (d.store.rows peer)[id]?.isSome ∧ ¬ d.store.Kept peer id) :
    Cleared peer d (d.without peer doomed) where
  kept id kept := by
    rw [Disk.rows_without, if_neg]
    exact fun mem => ((h id).mp mem.2).2 kept
  gone id lost := by
    rw [Disk.rows_without]
    split
    next => rfl
    next away =>
      by_contra stood
      exact away ⟨rfl, (h id).mpr ⟨Option.isSome_iff_ne_none.mpr stood, lost⟩⟩
  others other differs id := by
    rw [Disk.rows_without, if_neg fun h => differs h.1.symm]
  rest := d.without_rest peer doomed

/-- Both deletes leave the same, and neither touches anything where the outbox cannot be read. -/
theorem deletes_agree (d : Disk) (peer : DeviceId) (ids : List String)
    (all : ∀ id, id ∈ ids ↔ (d.store.rows peer)[id]?.isSome) :
    ((∀ key : String, d.store.outbox[key]? ≠ some none) → ∃ removed removed' kept d',
      (Prog.deleteConversation peer).run Disk.exec d = (.ok removed, d') ∧
      (Prog.deleteMessages peer ids).run Disk.exec d = (.ok (removed', kept), d') ∧ Cleared peer d d') ∧
    ((∃ key : String, d.store.outbox[key]? = some none) → ∃ key,
      (Prog.deleteConversation peer).run Disk.exec d = (.error (.queueUnreadable key), d) ∧
      (Prog.deleteMessages peer ids).run Disk.exec d = (.error (.queueUnreadable key), d)) := by
  have listed (key : String) : (key, none) ∈ d.store.outbox.toList ↔ d.store.outbox[key]? = some none :=
    Std.ExtTreeMap.mem_toList_iff_getElem?_eq_some
  constructor
  · intro readable
    obtain ⟨keep, rule⟩ := KeepRule.of_ok peer fun key mem => readable key ((listed key).mp mem)
    have judged (verdict : Bool) (id : String) : keep.Judges (d.store.rows peer) verdict id ↔
        (d.store.rows peer)[id]?.isSome ∧ (verdict = true ↔ d.store.Kept peer id) := by
      constructor
      · rintro ⟨value, stored, said⟩
        rw [← KeepRule.keeps_iff rule stored, said]
        exact ⟨by rw [stored]; rfl, Iff.rfl⟩
      · rintro ⟨there, kept⟩
        obtain ⟨value, stored⟩ := Option.isSome_iff_exists.mp there
        rw [← KeepRule.keeps_iff rule stored] at kept
        exact ⟨value, stored, Bool.eq_iff_iff.mpr kept.symm⟩
    obtain ⟨removed, run⟩ := Prog.run_deleteRows d peer keep (d.store.rows peer).toList
    obtain ⟨removed', kept, doomed, run', gone, -⟩ := Prog.run_deleteEach d peer keep [] ids
    have rows (id : String) : id ∈ (((d.store.rows peer).toList.filter
        fun row => !keep.keeps row.1 row.2).map Prod.fst) ↔ keep.Judges (d.store.rows peer) false id := by
      simp only [List.mem_map, List.mem_filter, Bool.not_eq_true', Prod.exists, exists_and_right,
        exists_eq_right, Std.ExtTreeMap.mem_toList_iff_getElem?_eq_some]
      rfl
    have doom (id : String) : id ∈ doomed ↔
        (d.store.rows peer)[id]?.isSome ∧ ¬ d.store.Kept peer id := by
      rw [gone, judged, all]
      simp
    refine ⟨removed, removed', kept, d.without peer doomed, ?_, ?_, cleared_without doom⟩
    · rw [Prog.deleteConversation, Program.run_bind, Prog.run_establish, rule]
      show (Prog.ask (.listRows peer) >>= _).run Disk.exec d = _
      rw [Program.run_bind, Prog.run_ask]
      show Program.run Disk.exec (Prog.deleteRows peer keep (d.store.rows peer).toList) d = _
      rw [run, Disk.without_congr d peer fun id => (rows id).trans ((judged false id).trans ?_)]
      rw [doom]
      simp
    · rw [Prog.deleteMessages, Program.run_bind, Prog.run_establish, rule]
      exact run'
  · rintro ⟨key, broken⟩
    obtain ⟨bad, failed⟩ := KeepRule.of_error peer ⟨key, (listed key).mpr broken⟩
    refine ⟨bad, ?_, ?_⟩
    · rw [Prog.deleteConversation, Program.run_bind, Prog.run_establish, failed]
    · rw [Prog.deleteMessages, Program.run_bind, Prog.run_establish, failed]

/-- A delete, or a send that queues: a file's row is written before its bytes are copied, and it is
queued after. -/
inductive Chore
  | deleteConversation (peer : DeviceId)
  | deleteMessages (peer : DeviceId) (ids : List String)
  | enqueue (now : Int) (peer : DeviceId) (msg : ChatMessage)
  | sendFile (now : Int) (peer : DeviceId) (r : FileRef) (path : String) (staged : StagedFile)

open Program (ret) in
def Chore.program (c : Chrono) : Chore → Prog Unit
  | .deleteConversation peer => do
    let _ ← Prog.deleteConversation peer
    ret ()
  | .deleteMessages peer ids => do
    let _ ← Prog.deleteMessages peer ids
    ret ()
  | .enqueue now peer msg => Prog.enqueue now peer msg
  | .sendFile now peer r path staged => do
    Prog.beginFileSend now peer r path
    let _ ← Prog.enqueueFile c now peer r staged
    ret ()

def Call.Mild : Call → Prop
  | .getRow _ _ | .listRows _ | .putRow _ | .getWindow _ | .getLanding _ _ | .deleteLanding _ _
  | .listOutbox => True
  | _ => False

def Stands (asked : List Heard) (peer : DeviceId) (id : String) : Prop :=
  ∃ value, lastSeen asked peer id = some (some value)

namespace Prog
open Program (ret)
variable {must : List Heard → Call → Prop} (mild : ∀ asked call, call.Mild → must asked call)
include mild

abbrev Looks (must : List Heard → Call → Prop) {α : Type} (p : Prog α) (post : α → List Heard → Prop)
    (asked : List Heard) : Prop :=
  p.wp (Pool.Hears fun _ _ _ => True) must post (fun _ _ => True) asked

variable {asked : List Heard}

theorem looks_take (peer : DeviceId) (id : String) :
    (takePendingLanding peer id).wp (Pool.Hears fun _ _ _ => True) must
      (fun _ asked' => Quiet asked asked') (fun _ asked' => Quiet asked asked') asked := by
  have quiet {a : Heard} {before : List Heard} (h : ∀ peer id seen, see peer id seen a = seen) :
      Quiet before (before ++ [a]) := quiet_push h
  rw [takePendingLanding, Program.wp_bind]
  refine Program.wp_ask.mpr ⟨mild _ _ trivial, ?_, ?_⟩
  · rintro (_ | blob) _ ⟨-, rfl⟩
    · exact quiet fun _ _ _ => rfl
    · refine Program.wp_bind.mpr (Program.wp_attempt.mpr (Program.wp_ask.mpr ⟨mild _ _ trivial, ?_, ?_⟩))
      · rintro gone _ ⟨-, rfl⟩
        exact (quiet fun _ _ _ => rfl).trans (quiet fun _ _ _ => rfl)
      · rintro e _ ⟨-, rfl⟩
        exact (quiet fun _ _ _ => rfl).trans (quiet fun _ _ _ => rfl)
  · rintro e _ ⟨-, rfl⟩
    exact quiet fun _ _ _ => rfl

omit mild in
theorem stands_quiet {asked' : List Heard} (quiet : Quiet asked asked') {peer : DeviceId} {id : String}
    (h : Stands asked peer id) : Stands asked' peer id := by
  obtain ⟨value, seen⟩ := h
  exact ⟨value, (quiet.2 ..).trans seen⟩

omit mild in
theorem stands_put (rec : ChatRecord) (r : Except CallError Unit) {peer : DeviceId} {id : String}
    (h : Stands asked peer id) : Stands (asked ++ [⟨.putRow rec, r⟩]) peer id := by
  obtain ⟨value, seen⟩ := h
  rw [Stands, lastSeen_push]
  cases r with
  | error e => exact ⟨value, seen⟩
  | ok done =>
    by_cases here : rec.peerId = peer ∧ rec.id = id
    · exact ⟨some rec, if_pos here⟩
    · exact ⟨value, (if_neg here).trans seen⟩

theorem looks_withLanding (rec : ChatRecord) :
    Looks must (withLanding rec)
      (fun _ asked' => ∀ peer id, Stands asked peer id → Stands asked' peer id) asked := by
  rw [withLanding]
  split
  · refine Program.wp_bind.mpr (Program.wp_attempt.mpr (Program.wp_mono (looks_take mild _ _) ?_ ?_))
    · rintro (_ | ⟨name, size⟩) pre quiet
      · exact fun _ _ => stands_quiet quiet
      · show Looks must (if _ then _ else _) _ pre
        split
        · refine Program.wp_bind.mpr (Program.wp_attempt.mpr (Program.wp_ask.mpr
            ⟨mild _ _ trivial, ?_, ?_⟩))
          · rintro done _ ⟨-, rfl⟩
            exact fun _ _ stands => stands_put _ _ (stands_quiet quiet stands)
          · rintro e _ ⟨-, rfl⟩
            exact fun _ _ stands => stands_put _ _ (stands_quiet quiet stands)
        · exact fun _ _ => stands_quiet quiet
    · exact fun _ _ quiet _ _ => stands_quiet quiet
  · exact fun _ _ h => h

theorem looks_retention (peer : DeviceId) :
    Looks must (retention peer) (fun _ asked' => Quiet asked asked') asked := by
  refine Program.wp_bind.mpr (Program.wp_ask.mpr ⟨mild _ _ trivial, ?_, fun _ _ _ => trivial⟩)
  rintro (_ | _ | r) _ ⟨-, rfl⟩
  · exact quiet_push fun _ _ _ => rfl
  · exact trivial
  · exact quiet_push fun _ _ _ => rfl

/-- Who is shown a row has seen one. -/
theorem looks_get (c : Chrono) (now : Int) (peer : DeviceId) (id : String) :
    Looks must (get c now peer id) (fun row asked' => row.isSome → Stands asked' peer id) asked := by
  refine Program.wp_bind.mpr (Program.wp_ask.mpr ⟨mild _ _ trivial, ?_, fun _ _ _ => trivial⟩)
  rintro (_ | _ | rec) _ ⟨-, rfl⟩
  · exact fun none => nomatch none
  · exact trivial
  · have seen : Stands (asked ++ [⟨.getRow peer id, .ok (some (some rec))⟩]) peer id := by
      refine ⟨some rec, ?_⟩
      rw [lastSeen_push]
      exact if_pos ⟨rfl, rfl⟩
    show Looks must (retention peer >>= _) _ _
    refine Program.wp_bind.mpr (Program.wp_mono (looks_retention mild peer) ?_ fun _ _ _ => trivial)
    intro r pre quiet
    split
    · exact fun none => nomatch none
    · refine Program.wp_bind.mpr (Program.wp_mono (looks_withLanding mild rec) ?_ fun _ _ _ => trivial)
      exact fun _ _ kept _ => kept _ _ (stands_quiet quiet seen)

theorem looks_append (rec : ChatRecord) : Looks must (append rec) (fun _ _ => True) asked := by
  have write {pre : List Heard} (new : ChatRecord) : Looks must (write new) (fun _ _ => True) pre :=
    Program.wp_ask.mpr ⟨mild _ _ trivial, fun _ _ _ => trivial, fun _ _ _ => trivial⟩
  rw [append]
  split
  · refine Program.wp_bind.mpr (Program.wp_mono (looks_take mild _ _) ?_ fun _ _ _ => trivial)
    rintro (_ | ⟨name, size⟩) pre _
    · exact write rec
    · exact write (rec.land name size)
  · exact write rec

end Prog

/-- A row is deleted by an outbox that has been read and did not hold it, and a file is queued by who
has seen its row. -/
def Minds (asked : List Heard) : Call → Prop
  | .deleteRow peer id => ∃ raw, ⟨.listOutbox, .ok raw⟩ ∈ asked ∧
      ∀ key e, (key, some e) ∈ raw → e.peerId = peer → e.kind ≠ .decline → e.messageId ≠ id
  | .putOutbox e => e.kind = .file → Stands asked e.peerId e.messageId
  | .deleteOutbox _ => False
  | _ => True

namespace Prog
open Program (ret)

theorem minds_mild (asked : List Heard) (call : Call) (mild : call.Mild) : Minds asked call := by
  cases call <;> first | exact trivial | exact mild.elim

variable {asked : List Heard} {peer : DeviceId} {keep : KeepRule} {raw : List (String × Option OutboxEntry)}

/-- The rule keeps what a queued entry names. -/
theorem minds_deleteRow (rule : KeepRule.of peer raw = .ok keep) (heard : ⟨.listOutbox, .ok raw⟩ ∈ asked) {id : String}
    {value : Option ChatRecord} (away : ¬ keep.keeps id value = true) : Minds asked (.deleteRow peer id) := by
  refine ⟨raw, heard, ?_⟩
  rintro key e mem own kind rfl
  apply away
  rw [KeepRule.keeps, Bool.or_eq_true, List.contains_iff_mem]
  exact .inl ((KeepRule.mem_queued rule _).mpr ⟨key, e, mem, own, kind, rfl⟩)

theorem minds_deleteRows (rule : KeepRule.of peer raw = .ok keep)
    (heard : ⟨.listOutbox, .ok raw⟩ ∈ asked) (rows : List (String × Option ChatRecord)) :
    Looks Minds (deleteRows peer keep rows) (fun _ _ => True) asked := by
  induction rows generalizing asked with
  | nil => exact trivial
  | cons row rows ih =>
    obtain ⟨key, value⟩ := row
    rw [deleteRows]
    split
    · exact ih heard
    · next away =>
      refine Program.wp_bind.mpr (Program.wp_ask.mpr ⟨minds_deleteRow rule heard away, ?_, fun _ _ _ => trivial⟩)
      rintro gone _ ⟨-, rfl⟩
      exact Program.wp_bind.mpr (ih (List.mem_append_left _ heard))

theorem minds_deleteEach (rule : KeepRule.of peer raw = .ok keep)
    (heard : ⟨.listOutbox, .ok raw⟩ ∈ asked) (seen ids : List String) :
    Looks Minds (deleteEach peer keep seen ids) (fun _ _ => True) asked := by
  induction ids generalizing asked seen with
  | nil => exact trivial
  | cons id ids ih =>
    rw [deleteEach]
    split
    · exact ih heard seen
    · refine Program.wp_bind.mpr (Program.wp_ask.mpr ⟨trivial, ?_, fun _ _ _ => trivial⟩)
      rintro (_ | value) _ ⟨-, rfl⟩
      · exact ih (List.mem_append_left _ heard) _
      · show Looks Minds (if _ then _ else _) _ _
        split
        · exact Program.wp_bind.mpr (ih (List.mem_append_left _ heard) _)
        · next away =>
          refine Program.wp_bind.mpr (Program.wp_ask.mpr
            ⟨minds_deleteRow rule (List.mem_append_left _ heard) away, ?_, fun _ _ _ => trivial⟩)
          rintro gone _ ⟨-, rfl⟩
          exact Program.wp_bind.mpr (ih (List.mem_append_left _ (List.mem_append_left _ heard)) _)

theorem minds_establish (peer : DeviceId) : Looks Minds (establish peer) (fun keep asked' =>
    ∃ raw, KeepRule.of peer raw = .ok keep ∧ ⟨.listOutbox, .ok raw⟩ ∈ asked') asked := by
  refine Program.wp_bind.mpr (Program.wp_ask.mpr ⟨trivial, ?_, fun _ _ _ => trivial⟩)
  rintro raw _ ⟨-, rfl⟩
  show Looks Minds (lift (KeepRule.of peer raw)) _ _
  cases rule : KeepRule.of peer raw with
  | error e => exact trivial
  | ok keep => exact ⟨raw, rule, List.mem_append_right _ List.mem_cons_self⟩

theorem minds_program (c : Chrono) (chore : Chore) :
    Looks Minds (chore.program c) (fun _ _ => True) [] := by
  cases chore with
  | deleteConversation peer =>
    refine Program.wp_bind.mpr (Program.wp_bind.mpr (Program.wp_mono (minds_establish peer) ?_
      fun _ _ _ => trivial))
    rintro keep asked ⟨raw, rule, heard⟩
    refine Program.wp_bind.mpr (Program.wp_ask.mpr ⟨trivial, ?_, fun _ _ _ => trivial⟩)
    rintro rows _ ⟨-, rfl⟩
    exact minds_deleteRows rule (List.mem_append_left _ heard) rows
  | deleteMessages peer ids =>
    refine Program.wp_bind.mpr (Program.wp_bind.mpr (Program.wp_mono (minds_establish peer) ?_
      fun _ _ _ => trivial))
    rintro keep asked ⟨raw, rule, heard⟩
    exact minds_deleteEach rule heard [] ids
  | enqueue now peer msg =>
    refine Program.wp_bind.mpr (Program.wp_mono (looks_append minds_mild _) ?_ fun _ _ _ => trivial)
    intro _ asked _
    exact Program.wp_ask.mpr ⟨nofun, fun _ _ _ => trivial, fun _ _ _ => trivial⟩
  | sendFile now peer r path staged =>
    refine Program.wp_bind.mpr (Program.wp_mono (looks_append minds_mild _) ?_ fun _ _ _ => trivial)
    intro _ begun _
    refine Program.wp_bind.mpr (Program.wp_bind.mpr (Program.wp_mono
      (looks_get minds_mild c now peer r.id) ?_ fun _ _ _ => trivial))
    rintro (_ | rec) asked stands
    · exact trivial
    · refine Program.wp_bind.mpr (Program.wp_ask.mpr ⟨fun _ => stands rfl, ?_, fun _ _ _ => trivial⟩)
      rintro _ _ ⟨-, rfl⟩
      exact Program.wp_bind.mpr (looks_append minds_mild _)

end Prog

def ChatStore.Backed (s : ChatStore) : Prop :=
  ∀ (key : String) (e : OutboxEntry), s.outbox[key]? = some (some e) →
    e.messageId = key ∧ (e.kind = .file → (s.rows e.peerId)[key]? ≠ none)

section
variable {ι : Type} [DecidableEq ι]

abbrev House (ι : Type) := Pool Disk ι Call Call.Answer CallError Unit

/-- What is acted on is as it was read: the outbox's entry when a row is deleted, and a file's row when
the file is queued. -/
def Current (w : House ι) (t : Turn ι CallError) : Prop :=
  t.failure = none → ∀ call, w.next t.thread = some call →
    match call with
    | .deleteRow _ id => ∀ raw, ⟨.listOutbox, .ok raw⟩ ∈ w.own t.thread →
        raw.lookup id = w.state.store.outbox[id]?
    | .putOutbox e => e.kind = .file → ∀ seen,
        lastSeen (w.own t.thread) e.peerId e.messageId = some seen →
          (w.state.store.rows e.peerId)[e.messageId]? = seen
    | _ => True

variable {w : House ι} {t : Turn ι CallError}

/-- Every call but one that deletes a row leaves the rows that stand. -/
theorem rows_stand (d : Disk) {call : Call} (noDelete : ∀ peer id, call ≠ .deleteRow peer id)
    {peer : DeviceId} {id : String} (stood : (d.store.rows peer)[id]? ≠ none) :
    ((d.exec call).2.store.rows peer)[id]? ≠ none := by
  by_cases put : ∃ rec, call = .putRow rec
  · obtain ⟨rec, rfl⟩ := put
    rw [Disk.exec, ChatStore.rows_write]
    split
    · exact Option.some_ne_none _
    · exact stood
  · rw [rows_exec d (fun rec same => put ⟨rec, same⟩) noDelete]
    exact stood

theorem backed_exec {d : Disk} (backed : d.store.Backed) {call : Call} {asked : List Heard}
    (minds : Minds asked call)
    (current : ∀ peer id, call = .deleteRow peer id → ∀ raw, ⟨.listOutbox, .ok raw⟩ ∈ asked →
      raw.lookup id = d.store.outbox[id]?)
    (seen : ∀ e, call = .putOutbox e → e.kind = .file → (d.store.rows e.peerId)[e.messageId]? ≠ none) :
    (d.exec call).2.store.Backed := by
  intro key e stored
  by_cases delete : ∃ peer id, call = .deleteRow peer id
  · obtain ⟨peer, id, rfl⟩ := delete
    obtain ⟨own, stands⟩ := backed key e stored
    refine ⟨own, fun file => ?_⟩
    rw [Disk.rows_deleteRow]
    split
    next same =>
      obtain ⟨rfl, rfl⟩ := same
      obtain ⟨raw, heard, away⟩ := minds
      have listed := (current _ _ rfl raw heard).trans stored
      refine absurd own (away id e ?_ rfl (by rw [file]; decide))
      obtain ⟨before, after, rfl, -⟩ := List.lookup_eq_some_iff.mp listed
      exact List.mem_append_right _ List.mem_cons_self
    next => exact stands file
  · have noDelete (peer : DeviceId) (id : String) : call ≠ .deleteRow peer id :=
      fun same => delete ⟨peer, id, same⟩
    cases call with
    | putOutbox e' =>
      rw [Disk.exec, ChatStore.putOutbox, SortedMap.get_insert] at stored
      split at stored
      next same =>
        cases stored
        exact ⟨same, fun file => same ▸ seen e rfl file⟩
      next =>
        exact backed key e stored
    | deleteOutbox id => exact minds.elim
    | _ =>
      obtain ⟨own, stands⟩ := backed key e stored
      exact ⟨own, fun file => rows_stand d noDelete (stands file)⟩

structure Minding (w : House ι) : Prop where
  keeps : w.Keeps (fun _ _ _ _ => True) (fun _ => Minds) (fun _ _ _ => True) fun _ _ _ => True
  backed : w.state.store.Backed

theorem Minding.step (h : Minding w) (ok : Current w t) : Minding (w.step Disk.exec t) := by
  refine ⟨h.keeps.step t fun _ _ => trivial, ?_⟩
  rcases Pool.step_cases Disk.exec w t with ⟨call, next, turn, after⟩ | ⟨_, after⟩
  · rw [after]
    show (Pool.reply Disk.exec w.state t.failure call).2.store.Backed
    cases failed : t.failure with
    | some e => exact h.backed
    | none =>
      have minds := h.keeps.call turn
      have current := ok failed call (Pool.next_eq_some.mpr ⟨next, turn⟩)
      refine backed_exec h.backed minds ?_ ?_
      · rintro peer id rfl raw heard
        exact current raw heard
      · rintro e rfl file
        obtain ⟨value, seen⟩ := minds file
        rw [current file _ seen]
        exact nofun
  · rw [after]
    exact h.backed

/-- Both deletes of a conversation leave the same; and where whoever deletes or queues acts on what it
has read as it still is, no file is queued without its row. -/
theorem deletes_strand_nothing (c : Chrono) (d : Disk) (peer : DeviceId) (ids : List String)
    (all : ∀ id, id ∈ ids ↔ (d.store.rows peer)[id]?.isSome) (chores : ι → Chore) (d₀ : Disk)
    (backed : d₀.store.Backed) (turns : List (Turn ι CallError))
    (ok : TransitionRun.Along (Pool.step Disk.exec) Current
      (.start d₀ fun i => (chores i).program c) turns) :
    (((∀ key : String, d.store.outbox[key]? ≠ some none) → ∃ removed removed' kept d',
      (Prog.deleteConversation peer).run Disk.exec d = (.ok removed, d') ∧
      (Prog.deleteMessages peer ids).run Disk.exec d = (.ok (removed', kept), d') ∧ Cleared peer d d') ∧
    ((∃ key : String, d.store.outbox[key]? = some none) → ∃ key,
      (Prog.deleteConversation peer).run Disk.exec d = (.error (.queueUnreadable key), d) ∧
      (Prog.deleteMessages peer ids).run Disk.exec d = (.error (.queueUnreadable key), d))) ∧
    (Pool.run Disk.exec (.start d₀ fun i => (chores i).program c) turns).state.store.Backed := by
  refine ⟨deletes_agree d peer ids all, ?_⟩
  refine (ok.invariant (I := Minding) ⟨fun i => Prog.minds_program c (chores i), backed⟩ ?_).backed
  exact fun w t h ok => h.step ok

end

private def awake : Chrono := ⟨fun _ => none, fun now secs => some (now - secs * 1000000000), 0⟩

private def attach : Bool → Chore
  | false => .sendFile 0 "ann" ⟨"f", "2026-01-01T00:00:00Z", "a.txt", 3⟩ "/home/a.txt" ⟨"a.txt", 3, "blobs/f"⟩
  | true => .deleteConversation "ann"

private def office : House Bool := .start ⟨.empty, ∅⟩ fun side => (attach side).program awake

private def moves (sides : List Bool) : List (Turn Bool CallError) := sides.map (⟨·, none⟩)

/-- The outbox is read while the file is still being staged, and its rows when it is queued already. -/
theorem delete_strands_queued_file :
    let w := office.run Disk.exec (moves [false, true, false, false, false, false, true, true])
    w.threads false = .ret () ∧ w.threads true = .ret () ∧
      w.state.store.outbox["f"]? = some (some (ChatStore.fileEntry "ann"
        ⟨"f", "2026-01-01T00:00:00Z", "a.txt", 3⟩ ⟨"a.txt", 3, "blobs/f"⟩)) ∧
      (w.state.store.rows "ann")["f"]? = none ∧ ¬ w.state.store.Backed := by
  intro w
  have queued : w.state.store.outbox["f"]? = some (some (ChatStore.fileEntry "ann"
      ⟨"f", "2026-01-01T00:00:00Z", "a.txt", 3⟩ ⟨"a.txt", 3, "blobs/f"⟩)) := by decide
  have gone : (w.state.store.rows "ann")["f"]? = none := by decide
  exact ⟨rfl, rfl, queued, gone, fun backed => (backed "f" _ queued).2 rfl gone⟩

private theorem current_moves : TransitionRun.Along (Pool.step Disk.exec) Current office
    (moves [false, true, true, false, false, false, false]) := by
  refine ⟨?_, ?_, ?_, ?_, ?_, ?_, ?_, trivial⟩
  all_goals intro _ call next; cases next
  · exact trivial
  · exact trivial
  · exact trivial
  · exact trivial
  · exact trivial
  · rintro - seen last
    cases last
    decide
  · exact trivial

private def note : ChatRecord := .received 0 "ann" ⟨"m", "2026-01-01T00:00:00Z", "hello", none, none⟩

private theorem note_stored (id : String) :
    id ∈ ["m"] ↔ (((ChatStore.empty.write note).rows "ann")[id]?).isSome := by
  rw [ChatStore.rows_write, List.mem_singleton]
  split
  next place => exact iff_of_true place.2.symm rfl
  next other => exact iff_of_false (fun same => other ⟨rfl, same.symm⟩) Bool.false_ne_true

/-- The theorem where the delete finds the file still being staged. -/
theorem delete_spares_staged_file :
    (((∀ key : String, (ChatStore.empty.write note).outbox[key]? ≠ some none) → ∃ removed removed' kept d',
      (Prog.deleteConversation "ann").run Disk.exec ⟨ChatStore.empty.write note, ∅⟩ = (.ok removed, d') ∧
      (Prog.deleteMessages "ann" ["m"]).run Disk.exec ⟨ChatStore.empty.write note, ∅⟩ =
        (.ok (removed', kept), d') ∧ Cleared "ann" ⟨ChatStore.empty.write note, ∅⟩ d') ∧
    ((∃ key : String, (ChatStore.empty.write note).outbox[key]? = some none) → ∃ key,
      (Prog.deleteConversation "ann").run Disk.exec ⟨ChatStore.empty.write note, ∅⟩ =
        (.error (.queueUnreadable key), ⟨ChatStore.empty.write note, ∅⟩) ∧
      (Prog.deleteMessages "ann" ["m"]).run Disk.exec ⟨ChatStore.empty.write note, ∅⟩ =
        (.error (.queueUnreadable key), ⟨ChatStore.empty.write note, ∅⟩))) ∧
    (office.run Disk.exec (moves [false, true, true, false, false, false, false])).state.store.Backed :=
  deletes_strand_nothing awake ⟨ChatStore.empty.write note, ∅⟩ "ann" ["m"] note_stored attach ⟨.empty, ∅⟩
    (fun _ _ => nofun) _ current_moves

end PeerBeam.Chat
