import PeerBeam.Lib.Numerals
import PeerBeam.Lib.Ranked
import PeerBeam.Lib.Run
import PeerBeam.Lib.SortedMap

/-! The clipboard history: the last clips, each kept under the millisecond it was recorded in. -/
namespace PeerBeam.Clipboard
open TransitionRun

inductive ClipboardError
  | serialization (why : String)
  deriving DecidableEq

structure ClipEntry where
  id : String
  text : String
  from_ : Option String
  at_ : String
  deriving DecidableEq

/-- The rows of the history's namespace, where `none` does not decode. -/
abbrev Rows := Std.ExtTreeMap String (Option ClipEntry)

def maxEntries : ℕ := 50

structure Now where
  timestampMillis : Int
  rfc3339 : String

/-- Which calls of the store fail, with what it says and whether the row is written or gone nevertheless. -/
structure Faults where
  list : Option String
  put : Option (String × Bool)
  delete : String → Option (String × Bool)

def noFaults : Faults := ⟨none, none, fun _ => none⟩

def idOf (now : Now) : String := String.ofList (Numerals.padded 10 13 now.timestampMillis.toNat)

def newestFirst (a b : ClipEntry) : Ordering := compare b.id a.id

namespace Rows
variable (rows : Rows)

/-- What `list` returns where the store answers. -/
def entries : List ClipEntry := Ranked.sort newestFirst (rows.toList.filterMap (·.2))

def list (faults : Faults) : Except ClipboardError (List ClipEntry) :=
  match faults.list with
  | none => .ok rows.entries
  | some why => .error (.serialization why)

def put (faults : Faults) (entry : ClipEntry) : Except ClipboardError Unit × Rows :=
  match faults.put with
  | none => (.ok (), rows.insert entry.id (some entry))
  | some (why, done) => (.error (.serialization why), if done then rows.insert entry.id (some entry) else rows)

def evict (faults : Faults) : List ClipEntry → Rows → Except ClipboardError Unit × Rows
  | [], rows => (.ok (), rows)
  | old :: rest, rows =>
    match faults.delete old.id with
    | none => evict faults rest (rows.erase old.id)
    | some (why, done) => (.error (.serialization why), if done then rows.erase old.id else rows)

def record (faults : Faults) (text : String) (from_ : Option String) (now : Now) :
    Except ClipboardError Bool × Rows :=
  if text = "" then (.ok false, rows)
  else
    match rows.list faults with
    | .error e => (.error e, rows)
    | .ok entries =>
      if entries.head?.any (·.text = text) then (.ok false, rows)
      else
        let entry : ClipEntry := ⟨idOf now, text, from_, now.rfc3339⟩
        match rows.put faults entry with
        | (.error e, rows) => (.error e, rows)
        | (.ok (), rows) =>
          match evict faults ((entry :: entries).drop maxEntries) rows with
          | (.error e, rows) => (.error e, rows)
          | (.ok (), rows) => (.ok true, rows)

/-- How many entries there were, unless the store does not say. -/
def clear (faults : Faults) (failed : Option (String × Bool)) : Except ClipboardError ℕ × Rows :=
  match rows.list faults with
  | .error e => (.error e, rows)
  | .ok entries =>
    match failed with
    | none => (.ok entries.length, ∅)
    | some (why, done) => (.error (.serialization why), if done then ∅ else rows)

end Rows

inductive Call
  | record (faults : Faults) (text : String) (from_ : Option String) (now : Now)
  | clear (faults : Faults) (failed : Option (String × Bool))

def step (rows : Rows) : Call → Rows
  | .record faults text from_ now => (rows.record faults text from_ now).2
  | .clear faults failed => (rows.clear faults failed).2

def Keyed (rows : Rows) : Prop := ∀ k row, rows[k]? = some row → ∃ e : ClipEntry, row = some e ∧ e.id = k

namespace Keyed
variable {rows : Rows}

theorem empty : Keyed ∅ := by
  intro k row here
  rw [Std.ExtTreeMap.getElem?_empty] at here
  cases here

theorem insert (h : Keyed rows) (entry : ClipEntry) : Keyed (rows.insert entry.id (some entry)) := by
  intro k row here
  rw [SortedMap.get_insert] at here
  split at here
  next same => cases here; exact ⟨entry, rfl, same⟩
  next => exact h k row here

theorem erase (h : Keyed rows) (id : String) : Keyed (rows.erase id) := by
  intro k row here
  rw [SortedMap.get_erase] at here
  split at here
  next => cases here
  next => exact h k row here

theorem put (h : Keyed rows) (faults : Faults) (entry : ClipEntry) : Keyed (rows.put faults entry).2 := by
  rw [Rows.put]
  split
  next => exact h.insert entry
  next why done _ =>
    cases done with
    | true => exact h.insert entry
    | false => exact h

theorem evict (h : Keyed rows) (faults : Faults) (olds : List ClipEntry) :
    Keyed (Rows.evict faults olds rows).2 := by
  induction olds generalizing rows with
  | nil => exact h
  | cons old rest ih =>
    rw [Rows.evict]
    split
    next => exact ih (h.erase old.id)
    next why done _ =>
      cases done with
      | true => exact h.erase old.id
      | false => exact h

end Keyed

namespace Rows
variable (rows : Rows)

def Repeats (text : String) : Prop := text = "" ∨ rows.entries.head?.any (·.text = text) = true

instance (text : String) : Decidable (rows.Repeats text) := inferInstanceAs (Decidable (_ ∨ _))

/-- The rows once an entry is put and what is beyond the bound is deleted. -/
def recorded (entry : ClipEntry) : Rows :=
  (((entry :: rows.entries).drop maxEntries).map ClipEntry.id).foldl (·.erase ·) (rows.insert entry.id (some entry))

variable {rows}

theorem list_ok {faults : Faults} {entries : List ClipEntry} (done : rows.list faults = .ok entries) :
    entries = rows.entries := by
  rw [list] at done
  split at done
  next => cases done; rfl
  next => cases done

theorem put_ok {faults : Faults} {entry : ClipEntry} {after : Rows} (done : rows.put faults entry = (.ok (), after)) :
    after = rows.insert entry.id (some entry) := by
  rw [put] at done
  split at done
  next => cases done; rfl
  next => cases done

theorem evict_ok {faults : Faults} {olds : List ClipEntry} {after : Rows}
    (done : evict faults olds rows = (.ok (), after)) : after = (olds.map ClipEntry.id).foldl (·.erase ·) rows := by
  induction olds generalizing rows with
  | nil => exact (Prod.ext_iff.mp done).2.symm
  | cons old rest ih =>
    rw [evict] at done
    split at done
    next => exact ih done
    next => cases done

/-- What a call does that does not fail. -/
theorem record_ok {faults : Faults} {text : String} {from_ : Option String} {now : Now} {answer : Bool} {after : Rows}
    (done : rows.record faults text from_ now = (.ok answer, after)) :
    rows.Repeats text ∧ answer = false ∧ after = rows ∨
      ¬ rows.Repeats text ∧ answer = true ∧ after = rows.recorded ⟨idOf now, text, from_, now.rfc3339⟩ := by
  rw [record] at done
  split at done
  next empty => cases done; exact .inl ⟨.inl empty, rfl, rfl⟩
  next some_ =>
    split at done
    next => cases done
    next entries listed =>
      rw [list_ok listed] at done
      split at done
      next top => cases done; exact .inl ⟨.inr top, rfl, rfl⟩
      next other =>
        dsimp only at done
        split at done
        next => cases done
        next kept written =>
          rw [put_ok written] at done
          split at done
          next => cases done
          next rest evicted =>
            cases done
            exact .inr ⟨not_or.mpr ⟨some_, other⟩, rfl, evict_ok evicted⟩

end Rows

theorem Keyed.record {rows : Rows} (h : Keyed rows) (faults : Faults) (text : String) (from_ : Option String)
    (now : Now) : Keyed (rows.record faults text from_ now).2 := by
  rw [Rows.record]
  split
  next => exact h
  next =>
    split
    next => exact h
    next entries _ =>
      split
      next => exact h
      next =>
        have put := h.put faults ⟨idOf now, text, from_, now.rfc3339⟩
        dsimp only
        split
        next _ after failed => rwa [failed] at put
        next after done =>
          rw [done] at put
          have evicted := put.evict faults ((⟨idOf now, text, from_, now.rfc3339⟩ :: entries).drop maxEntries)
          split
          next _ rest failed => rwa [failed] at evicted
          next rest done => rwa [done] at evicted

theorem Keyed.clear {rows : Rows} (h : Keyed rows) (faults : Faults) (failed : Option (String × Bool)) :
    Keyed (rows.clear faults failed).2 := by
  rw [Rows.clear]
  split
  next => exact h
  next entries _ =>
    split
    next => exact .empty
    next _ why done =>
      cases done with
      | true => exact .empty
      | false => exact h

theorem keyed_run (calls : List Call) : Keyed (calls.foldl step ∅) := by
  refine invariant .empty (fun rows call h => ?_) calls
  cases call with
  | record faults text from_ now => exact h.record faults text from_ now
  | clear faults failed => exact h.clear faults failed

namespace Keyed
variable {rows : Rows} (h : Keyed rows)
include h

theorem mem_entries {e : ClipEntry} : e ∈ rows.entries ↔ rows[e.id]? = some (some e) := by
  rw [Rows.entries, (Ranked.perm_sort _).mem_iff, List.mem_filterMap]
  constructor
  · rintro ⟨⟨k, row⟩, mem, some_⟩
    have here := Std.ExtTreeMap.mem_toList_iff_getElem?_eq_some.mp mem
    obtain ⟨e', same, rfl⟩ := h k row here
    cases same.symm.trans some_
    rw [here, same]
  · intro here
    exact ⟨(e.id, some e), Std.ExtTreeMap.mem_toList_iff_getElem?_eq_some.mpr here, rfl⟩

theorem entries_sorted : rows.entries.Pairwise fun a b => b.id < a.id := by
  have listed : (rows.toList.filterMap (·.2)).Pairwise fun a b => a.id ≠ b.id := by
    refine List.pairwise_filterMap.mpr ((SortedMap.distinct_toList rows).imp_of_mem ?_)
    intro a b mem mem' apart e some_ e' some_' same
    obtain ⟨_, eq, key⟩ := h _ _ (Std.ExtTreeMap.mem_toList_iff_getElem?_eq_some.mp mem)
    obtain ⟨_, eq', key'⟩ := h _ _ (Std.ExtTreeMap.mem_toList_iff_getElem?_eq_some.mp mem')
    cases eq.symm.trans some_
    cases eq'.symm.trans some_'
    exact apart (key.symm.trans (same.trans key'))
  have apart : rows.entries.Pairwise fun a b => a.id ≠ b.id :=
    ((Ranked.perm_sort _).pairwise_iff Ne.symm).mpr listed
  have sorted : rows.entries.Pairwise fun a b => (compare b.id a.id).isLE = true :=
    @Ranked.sorted_sort _ newestFirst (inferInstanceAs (Std.TransCmp fun a b => compareOn ClipEntry.id b a)) _
  refine (sorted.and apart).imp fun both => ?_
  exact lt_of_le_of_ne (compare_le_iff_le.mp (Ordering.isLE_iff_ne_gt.mp both.1)) (Ne.symm both.2)

theorem size_eq : rows.size = rows.entries.length := by
  rw [Rows.entries, (Ranked.perm_sort _).length_eq, ← Std.ExtTreeMap.length_toList]
  refine (List.filterMap_length_eq_length.mpr fun pair mem => ?_).symm
  obtain ⟨e, some_, -⟩ := h _ _ (Std.ExtTreeMap.mem_toList_iff_getElem?_eq_some.mp mem)
  exact some_ ▸ rfl

theorem recorded (entry : ClipEntry) : Keyed (rows.recorded entry) := by
  rw [Rows.recorded]
  generalize ((entry :: rows.entries).drop maxEntries).map ClipEntry.id = ids
  have start := h.insert entry
  revert start
  generalize rows.insert entry.id (some entry) = rows
  intro start
  clear h
  induction ids generalizing rows with
  | nil => exact start
  | cons id ids ih => exact ih _ (start.erase id)

end Keyed

/-- The entry is on top, and what is gone is what was oldest and beyond the bound. -/
structure Kept (before after : Rows) (entry : ClipEntry) : Prop where
  stored : after[entry.id]? = some (some entry)
  newest : after.entries.head? = some entry
  bounded : after.size ≤ maxEntries
  dropped : ∀ old ∈ before.entries, old ∉ after.entries ↔ old ∈ before.entries.drop (maxEntries - 1)

theorem mem_take_iff {α : Type*} {l : List α} (nodup : l.Nodup) {a : α} (mem : a ∈ l) (n : ℕ) :
    a ∈ l.take n ↔ a ∉ l.drop n := by
  rw [← List.take_append_drop n l] at nodup mem
  rcases List.mem_append.mp mem with front | back
  · exact iff_of_true front fun back => (List.nodup_append.mp nodup).2.2 a front a back rfl
  · exact iff_of_false (fun front => (List.nodup_append.mp nodup).2.2 a front a back rfl) (not_not.mpr back)

theorem get_recorded (rows : Rows) (entry : ClipEntry) (k : String) : (rows.recorded entry)[k]? =
    if k ∈ (rows.entries.drop (maxEntries - 1)).map ClipEntry.id then none
    else if entry.id = k then some (some entry) else rows[k]? := by
  rw [Rows.recorded, SortedMap.get_foldl_erase, SortedMap.get_insert]
  rfl

namespace Keyed
variable {rows : Rows} (h : Keyed rows) {entry : ClipEntry}
include h

theorem nodup_entries : rows.entries.Nodup := h.entries_sorted.imp fun {_ _} less same => (same ▸ less).ne rfl

theorem id_mem_map {entries : List ClipEntry} (sub : entries ⊆ rows.entries) {e : ClipEntry} (mem : e ∈ rows.entries) :
    e.id ∈ entries.map ClipEntry.id ↔ e ∈ entries := by
  refine ⟨fun listed => ?_, List.mem_map_of_mem⟩
  obtain ⟨other, own, same⟩ := List.mem_map.mp listed
  have here := h.mem_entries.mp (sub own)
  rw [same, h.mem_entries.mp mem] at here
  cases here
  exact own

/-- An entry above all others is put on top of them, and the list is cut. -/
theorem entries_recorded (above : ∀ old ∈ rows.entries, old.id < entry.id) :
    (rows.recorded entry).entries = entry :: rows.entries.take (maxEntries - 1) := by
  have dropped : rows.entries.drop (maxEntries - 1) ⊆ rows.entries := List.drop_subset _ _
  refine List.Pairwise.eq_of_mem_iff (h.recorded entry).entries_sorted ?_ fun e => ?_
  · refine List.pairwise_cons.mpr ⟨fun old mem => above old (List.mem_of_mem_take mem), ?_⟩
    exact h.entries_sorted.sublist (List.take_sublist _ _)
  rw [(h.recorded entry).mem_entries, get_recorded, List.mem_cons]
  by_cases own : e ∈ rows.entries
  · have other : e ≠ entry := fun same => (above e own).ne (congrArg ClipEntry.id same)
    rw [or_iff_right other, mem_take_iff h.nodup_entries own, if_neg (above e own).ne', h.mem_entries.mp own]
    split
    next beyond => exact iff_of_false nofun (not_not.mpr ((h.id_mem_map dropped own).mp beyond))
    next kept => exact iff_of_true rfl fun beyond => kept ((h.id_mem_map dropped own).mpr beyond)
  · rw [or_iff_left fun mem => own (List.mem_of_mem_take mem)]
    constructor
    · intro here
      split at here
      next => cases here
      next =>
        split at here
        next => cases here; rfl
        next => exact absurd (h.mem_entries.mpr here) own
    · rintro rfl
      rw [if_neg, if_pos rfl]
      intro listed
      obtain ⟨old, mem, same⟩ := List.mem_map.mp listed
      exact (above old (dropped mem)).ne same

/-- A clip is kept as it should be exactly where its id is above those of all entries. -/
theorem recorded_kept_iff (new : ¬ rows.Repeats entry.text) :
    Kept rows (rows.recorded entry) entry ↔ ∀ old ∈ rows.entries, old.id < entry.id := by
  have after := h.recorded entry
  constructor
  · intro kept old mem
    by_contra below
    obtain ⟨top, rest, list⟩ := List.exists_cons_of_ne_nil (List.ne_nil_of_mem mem)
    have sorted := h.entries_sorted
    rw [list] at sorted mem
    have le : old.id ≤ top.id := by
      rcases List.mem_cons.mp mem with rfl | later
      · exact le_rfl
      · exact ((List.pairwise_cons.mp sorted).1 old later).le
    have top_mem : top ∈ rows.entries := list ▸ List.mem_cons_self
    -- the entry on top is never beyond the bound, so it is there with the new one above it
    have stays : top ∈ (rows.recorded entry).entries := by
      by_contra gone
      have dropped := (kept.dropped top top_mem).mp gone
      refine (mem_take_iff h.nodup_entries top_mem (maxEntries - 1)).mp ?_ dropped
      rw [list]
      exact List.mem_cons_self
    obtain ⟨others, list'⟩ := List.head?_eq_some_iff.mp kept.newest
    rw [list'] at stays
    rcases List.mem_cons.mp stays with rfl | later
    · refine new (.inr ?_)
      rw [list]
      exact decide_eq_true rfl
    · have sorted' := after.entries_sorted
      rw [list'] at sorted'
      exact below (le.trans_lt ((List.pairwise_cons.mp sorted').1 top later))
  · intro above
    have list := h.entries_recorded above
    have nodup := after.nodup_entries
    refine ⟨after.mem_entries.mp (list ▸ List.mem_cons_self), by rw [list]; rfl, ?_, fun old mem => ?_⟩
    · rw [after.size_eq, list, List.length_cons, List.length_take]
      exact Nat.succ_le_of_lt (Nat.lt_of_le_of_lt (Nat.min_le_left _ _) (by decide))
    · rw [list, List.mem_cons, or_iff_right fun same => (above old mem).ne (congrArg ClipEntry.id same),
        mem_take_iff h.nodup_entries mem, not_not]

end Keyed

/-- An id of an entry that is beyond the bound is deleted as soon as it is written. -/
theorem recorded_lost {rows : Rows} {entry : ClipEntry}
    (beyond : entry.id ∈ (rows.entries.drop (maxEntries - 1)).map ClipEntry.id) :
    (rows.recorded entry)[entry.id]? = none := by
  rw [get_recorded, if_pos beyond]

/-- From 1970 to 2286 ids are in the order of the clock. -/
theorem idOf_lt_idOf_iff {now now' : Now} (early : now.timestampMillis < 10 ^ 13)
    (early' : now'.timestampMillis < 10 ^ 13) :
    idOf now < idOf now' ↔ now.timestampMillis.toNat < now'.timestampMillis.toNat := by
  have wide {now : Now} (early : now.timestampMillis < 10 ^ 13) :
      (Numerals.padded 10 13 now.timestampMillis.toNat).length = 13 := by
    rw [Numerals.length_padded]
    exact Nat.max_eq_left ((Nat.length_toDigits_le_iff (by decide) (by decide)).mpr (by omega))
  have less {now now' : Now} (early : now.timestampMillis < 10 ^ 13) (early' : now'.timestampMillis < 10 ^ 13)
      (lt : now.timestampMillis.toNat < now'.timestampMillis.toNat) : idOf now < idOf now' := by
    rw [idOf, idOf, String.lt_iff, String.toList_ofList, String.toList_ofList]
    exact Numerals.padded_lt_padded (by decide) (by decide) ((wide early).trans (wide early').symm) lt
  refine ⟨fun lt => ?_, less early early'⟩
  by_contra ge
  rcases (Nat.not_lt.mp ge).lt_or_eq with after | same
  · exact String.lt_asymm lt (less early' early after)
  · rw [idOf, idOf, same] at lt
    exact String.lt_irrefl _ lt

/-- What an answer says: that the clip is kept as it should be, or that nothing is changed. -/
def AsSaid (before after : Rows) (entry : ClipEntry) : Bool → Prop
  | true => Kept before after entry
  | false => after = before

/-- In every history, what a call answers is so exactly where the clip is none or the one on top, or its id is above
those of all entries. -/
theorem recorded_as_said_iff (calls : List Call) {faults : Faults} {text : String} {from_ : Option String} {now : Now}
    {answer : Bool} {after : Rows} (done : (calls.foldl step ∅).record faults text from_ now = (.ok answer, after)) :
    AsSaid (calls.foldl step ∅) after ⟨idOf now, text, from_, now.rfc3339⟩ answer ↔
      (calls.foldl step ∅).Repeats text ∨ ∀ old ∈ (calls.foldl step ∅).entries, old.id < idOf now := by
  rcases Rows.record_ok done with ⟨repeats, rfl, rfl⟩ | ⟨new, rfl, rfl⟩
  · exact iff_of_true rfl (.inl repeats)
  · rw [or_iff_right new]
    exact (keyed_run calls).recorded_kept_iff new

theorem Rows.evict_noFaults (olds : List ClipEntry) (rows : Rows) :
    evict noFaults olds rows = (.ok (), (olds.map ClipEntry.id).foldl (·.erase ·) rows) := by
  induction olds generalizing rows with
  | nil => rfl
  | cons old rest ih =>
    rw [evict]
    exact ih _

theorem Rows.record_noFaults {rows : Rows} {text : String} (new : ¬ rows.Repeats text) (from_ : Option String)
    (now : Now) :
    rows.record noFaults text from_ now = (.ok true, rows.recorded ⟨idOf now, text, from_, now.rfc3339⟩) := by
  obtain ⟨some_, other⟩ := not_or.mp new
  have listed : rows.list noFaults = .ok rows.entries := rfl
  have written (entry : ClipEntry) : rows.put noFaults entry = (.ok (), rows.insert entry.id (some entry)) := rfl
  rw [record, if_neg some_, listed]
  dsimp only
  rw [if_neg other, written]
  dsimp only
  rw [evict_noFaults]
  rfl

/-- One clip recorded into an empty history, and another one after it. -/
theorem one_then_another {text text' : String} (some_ : text ≠ "") (some' : text' ≠ "") (differ : text ≠ text')
    (from_ : Option String) (now now' : Now) :
    ∃ after, ([.record noFaults text from_ now].foldl step ∅).record noFaults text' from_ now' = (.ok true, after) ∧
      (AsSaid ([.record noFaults text from_ now].foldl step ∅) after ⟨idOf now', text', from_, now'.rfc3339⟩ true ↔
        idOf now < idOf now') := by
  have none_ : (∅ : Rows).entries = [] := by
    refine List.eq_nil_iff_forall_not_mem.mpr fun e mem => ?_
    have here := Keyed.empty.mem_entries.mp mem
    rw [Std.ExtTreeMap.getElem?_empty] at here
    cases here
  have new : ¬ (∅ : Rows).Repeats text := by
    rw [Rows.Repeats, none_]
    exact not_or.mpr ⟨some_, nofun⟩
  have one : [.record noFaults text from_ now].foldl step ∅ = (∅ : Rows).recorded ⟨idOf now, text, from_, now.rfc3339⟩ := by
    rw [List.foldl_cons, List.foldl_nil, step, Rows.record_noFaults new]
  have list : ((∅ : Rows).recorded ⟨idOf now, text, from_, now.rfc3339⟩).entries =
      [⟨idOf now, text, from_, now.rfc3339⟩] := by
    rw [Keyed.empty.entries_recorded (by rw [none_]; nofun), none_]
    rfl
  have new' : ¬ ((∅ : Rows).recorded ⟨idOf now, text, from_, now.rfc3339⟩).Repeats text' := by
    rw [Rows.Repeats, list]
    exact not_or.mpr ⟨some', by simpa using differ⟩
  refine ⟨_, by rw [one, Rows.record_noFaults new'], ?_⟩
  rw [one, AsSaid, (Keyed.empty.recorded _).recorded_kept_iff new', list]
  exact List.forall_mem_singleton

private def clockAt (millis : Int) : Now := ⟨millis, ""⟩

/-- The second clip of a millisecond takes the place of the first, and one recorded under a clock set back is not on
top. -/
theorem second_clip_not_kept :
    (∃ after, ([.record noFaults "a" none (clockAt 1)].foldl step ∅).record noFaults "b" none (clockAt 1) =
        (.ok true, after) ∧
      ¬ AsSaid ([.record noFaults "a" none (clockAt 1)].foldl step ∅) after ⟨idOf (clockAt 1), "b", none, ""⟩ true) ∧
    ∃ after, ([.record noFaults "a" none (clockAt 2)].foldl step ∅).record noFaults "b" none (clockAt 1) =
        (.ok true, after) ∧
      ¬ AsSaid ([.record noFaults "a" none (clockAt 2)].foldl step ∅) after ⟨idOf (clockAt 1), "b", none, ""⟩ true := by
  constructor
  · obtain ⟨after, done, said⟩ := @one_then_another "a" "b" (by decide) (by decide) (by decide) none (clockAt 1) (clockAt 1)
    exact ⟨after, done, mt said.mp (String.lt_irrefl _)⟩
  · obtain ⟨after, done, said⟩ := @one_then_another "a" "b" (by decide) (by decide) (by decide) none (clockAt 2) (clockAt 1)
    exact ⟨after, done, mt said.mp (mt (idOf_lt_idOf_iff (by decide) (by decide)).mp (by decide))⟩

/-- A second clip of a later millisecond. -/
theorem later_clip_kept :
    ∃ after, ([.record noFaults "a" none (clockAt 1)].foldl step ∅).record noFaults "b" none (clockAt 2) =
        (.ok true, after) ∧
      AsSaid ([.record noFaults "a" none (clockAt 1)].foldl step ∅) after ⟨idOf (clockAt 2), "b", none, ""⟩ true ∧
      (([.record noFaults "a" none (clockAt 1)].foldl step ∅).Repeats "b" ∨
        ∀ old ∈ ([.record noFaults "a" none (clockAt 1)].foldl step ∅).entries, old.id < idOf (clockAt 2)) := by
  obtain ⟨after, done, said⟩ := @one_then_another "a" "b" (by decide) (by decide) (by decide) none (clockAt 1) (clockAt 2)
  have kept := said.mpr ((idOf_lt_idOf_iff (by decide) (by decide)).mpr (by decide))
  exact ⟨after, done, kept, (recorded_as_said_iff _ done).mp kept⟩

end PeerBeam.Clipboard
