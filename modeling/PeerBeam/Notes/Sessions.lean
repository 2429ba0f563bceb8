import PeerBeam.Lib.Run
import PeerBeam.Notes.Exchange

/-! Batches that several sessions deliver at once. A merge reads the store in one call and writes it in another, and
nothing keeps another session's merge of the same note out in between. -/
namespace PeerBeam.Notes
open TransitionRun

abbrev DeviceId := String

/-- The arrival of a batch, with what decides whether it is taken. -/
structure Delivery where
  device : DeviceId
  permitted : Bool
  size : Nat
  batch : NoteBatch

def Delivery.merged (d : Delivery) : List Note :=
  if d.permitted then ((d.batch.fromFrame d.size).map (·.notes)).toOption.getD [] else []

namespace NoteStore

/-- The second half of `merge`: what it does with the version it has read. -/
def mergeRead (s : NoteStore) (mine : Option Note) (incoming : Note) : NoteStore :=
  match mine with
  | none => s.put incoming
  | some mine => if mine.wins incoming = incoming ∧ mine ≠ incoming then s.put incoming else s

theorem mergeRead_get (s : NoteStore) (incoming : Note) :
    s.mergeRead (s.get incoming.id) incoming = (s.merge incoming).1 := by
  cases found : s.get incoming.id with
  | none => rw [mergeRead, merge, found]
  | some mine =>
    rw [mergeRead, merge, found]
    dsimp only
    split <;> rfl

end NoteStore

/-- A handler at work on a batch. -/
structure Merging where
  device : DeviceId
  rest : List Note
  /-- What the store gave for the first of them, between the two calls. -/
  read : Option (Option Note)

/-- The note whose merge is under way. -/
def Merging.reading (h : Merging) : Option String := if h.read.isSome then h.rest.head?.map Note.id else none

structure Sessions where
  stores : DeviceId → NoteStore
  handlers : List Merging
  /-- The merges done so far. -/
  merged : List (DeviceId × Note)

/-- The arrival of a batch, or one store call of the handler at this place. -/
inductive Call
  | arrive (d : Delivery)
  | get (i : ℕ)
  | put (i : ℕ)

namespace Sessions

def start (stores : DeviceId → NoteStore) : Sessions := ⟨stores, [], []⟩

def step (s : Sessions) : Call → Sessions
  | .arrive d => { s with handlers := s.handlers ++ [⟨d.device, d.merged, none⟩] }
  | .get i =>
    match s.handlers[i]? with
    | some ⟨device, n :: rest, none⟩ =>
      { s with handlers := s.handlers.set i ⟨device, n :: rest, some ((s.stores device).get n.id)⟩ }
    | _ => s
  | .put i =>
    match s.handlers[i]? with
    | some ⟨device, n :: rest, some mine⟩ =>
      { stores := Function.update s.stores device ((s.stores device).mergeRead mine n)
        handlers := s.handlers.set i ⟨device, rest, none⟩
        merged := s.merged ++ [(device, n)] }
    | _ => s

/-- No merge begins while another one of the same note is under way on the device. -/
def Alone (s : Sessions) : Call → Prop
  | .get i => ∀ h ∈ s.handlers[i]?, h.read = none → ∀ n ∈ h.rest.head?,
      ∀ g ∈ s.handlers, g.device = h.device → g.reading ≠ some n.id
  | _ => True

/-- The versions merged on a device, in the order of their writes. -/
def mergesOn (merged : List (DeviceId × Note)) (device : DeviceId) : List Note :=
  (merged.filter (·.1 = device)).map Prod.snd

theorem mergesOn_append (merged : List (DeviceId × Note)) (device device' : DeviceId) (n : Note) :
    mergesOn (merged ++ [(device, n)]) device' = mergesOn merged device' ++ if device = device' then [n] else [] := by
  rw [mergesOn, mergesOn, List.filter_append, List.map_append]
  by_cases here : device = device'
  · rw [if_pos here, List.filter_cons_of_pos (by simpa using here)]
    rfl
  · rw [if_neg here, List.filter_cons_of_neg (by simpa using here)]
    rfl

/-- What a handler has read still stands in the store, no two of a device are at one note, and the stores are those of
merging in the order of the writes. -/
structure Serial (stores : DeviceId → NoteStore) (s : Sessions) : Prop where
  current : ∀ h ∈ s.handlers, ∀ mine, h.read = some mine →
    ∃ n rest, h.rest = n :: rest ∧ mine = (s.stores h.device).get n.id
  apart : ∀ (i j : ℕ) (g h : Merging), s.handlers[i]? = some g → s.handlers[j]? = some h → i ≠ j → g.device = h.device →
    ∀ id, g.reading = some id → h.reading ≠ some id
  merged : ∀ device, s.stores device = (stores device).mergeAll (mergesOn s.merged device)

theorem Serial.arrive {stores : DeviceId → NoteStore} {s : Sessions} (serial : Serial stores s) (d : Delivery) :
    Serial stores (s.step (.arrive d)) where
  current := by
    intro h mem mine read
    rcases List.mem_append.mp mem with old | new
    · exact serial.current h old mine read
    · cases List.mem_singleton.mp new
      cases read
  apart := by
    intro i j g h atI atJ differ same id reading
    have idle {k : ℕ} {f : Merging} (at_ : (s.step (.arrive d)).handlers[k]? = some f) :
        s.handlers[k]? = some f ∨ f.reading = none := by
      rw [step] at at_
      dsimp only at at_
      rw [List.getElem?_append] at at_
      split at at_
      · exact .inl at_
      · right
        cases List.mem_singleton.mp (List.mem_of_getElem? at_)
        rfl
    rcases idle atI with old | none_
    · rcases idle atJ with old' | none_'
      · exact serial.apart i j g h old old' differ same id reading
      · rw [none_']
        intro reading'
        cases reading'
    · rw [none_] at reading
      cases reading
  merged := serial.merged

private theorem getElem?_set_cases {α : Type} {l : List α} {i k : ℕ} {a b : α} (here : (l.set i a)[k]? = some b) :
    i = k ∧ b = a ∨ i ≠ k ∧ l[k]? = some b := by
  rw [List.getElem?_set] at here
  split at here
  · next same =>
    split at here
    · exact .inl ⟨same, (Option.some.inj here).symm⟩
    · cases here
  · next differ => exact .inr ⟨differ, here⟩

theorem Serial.get {stores : DeviceId → NoteStore} {s : Sessions} (serial : Serial stores s) {i : ℕ}
    (alone : s.Alone (.get i)) : Serial stores (s.step (.get i)) := by
  rw [step]
  split
  next device n rest at_ =>
    have others : ∀ g ∈ s.handlers, g.device = device → g.reading ≠ some n.id :=
      alone _ at_ rfl n rfl
    constructor
    · intro h mem mine read
      obtain ⟨k, here⟩ := List.mem_iff_getElem?.mp mem
      rcases getElem?_set_cases here with ⟨-, rfl⟩ | ⟨-, old⟩
      · exact ⟨n, rest, rfl, (Option.some.inj read).symm⟩
      · exact serial.current h (List.mem_of_getElem? old) mine read
    · intro k l g h atK atL differ same id reading
      rcases getElem?_set_cases atK with ⟨rfl, rfl⟩ | ⟨-, oldK⟩
      · rcases getElem?_set_cases atL with ⟨rfl, -⟩ | ⟨-, oldL⟩
        · exact absurd rfl differ
        · cases reading
          exact others h (List.mem_of_getElem? oldL) same.symm
      · rcases getElem?_set_cases atL with ⟨rfl, rfl⟩ | ⟨-, oldL⟩
        · intro reading'
          cases reading'
          exact others g (List.mem_of_getElem? oldK) same reading
        · exact serial.apart k l g h oldK oldL differ same id reading
    · exact serial.merged
  · exact serial

theorem Serial.put {stores : DeviceId → NoteStore} {s : Sessions} (serial : Serial stores s) (i : ℕ) :
    Serial stores (s.step (.put i)) := by
  rw [step]
  split
  next device n rest mine at_ =>
    obtain ⟨n', rest', shape, here⟩ := serial.current _ (List.mem_of_getElem? at_) mine rfl
    cases shape
    -- what was read is what the store holds, so the write is a merge
    have merge : (s.stores device).mergeRead mine n = ((s.stores device).merge n).1 := by
      rw [here]
      exact NoteStore.mergeRead_get _ _
    constructor
    · intro h mem mine' read
      obtain ⟨k, found⟩ := List.mem_iff_getElem?.mp mem
      rcases getElem?_set_cases found with ⟨-, rfl⟩ | ⟨differ, old⟩
      · cases read
      · obtain ⟨m, left, eq, same⟩ := serial.current h (List.mem_of_getElem? old) mine' read
        refine ⟨m, left, eq, same.trans ?_⟩
        dsimp only
        by_cases own : h.device = device
        · have reading : h.reading = some m.id := by
            rw [Merging.reading, read, eq]
            rfl
          have apart := serial.apart i k _ h at_ old differ own.symm n.id rfl
          rw [own, Function.update_self, merge, NoteStore.get_merge, if_neg]
          intro ids
          exact apart (ids ▸ reading)
        · rw [Function.update_of_ne own]
    · intro k l g h atK atL differ same id reading
      rcases getElem?_set_cases atK with ⟨rfl, rfl⟩ | ⟨-, oldK⟩
      · cases reading
      · rcases getElem?_set_cases atL with ⟨rfl, rfl⟩ | ⟨-, oldL⟩
        · intro reading'
          cases reading'
        · exact serial.apart k l g h oldK oldL differ same id reading
    · intro device'
      dsimp only
      rw [mergesOn_append]
      by_cases own : device = device'
      · subst own
        rw [if_pos rfl, NoteStore.mergeAll_append, Function.update_self, merge, serial.merged device]
        rfl
      · rw [if_neg own, List.append_nil, Function.update_of_ne (Ne.symm own), serial.merged device']
  · exact serial

/-- The versions that a device has met: those it started with and those merged since. -/
def met (stores : DeviceId → NoteStore) (s : Sessions) (device : DeviceId) : Set Note :=
  {n | n ∈ (stores device).all ∨ n ∈ mergesOn s.merged device}

end Sessions

/-- Two versions that differ in their stamps overlap, and the older one is left. -/
example :
    let tea : Note := ⟨"n1", "", "tea", "2026-01-01T00:00:05+00:00", false⟩
    let coffee : Note := ⟨"n1", "", "coffee", "2026-01-01T00:00:09+00:00", false⟩
    let arrive (n : Note) : Call := .arrive ⟨"ann", true, 512, ⟨[n], false, false⟩⟩
    let s := [arrive tea, arrive coffee, .get 0, .get 1, .put 1, .put 0].foldl Sessions.step (.start fun _ => .empty)
    (s.stores "ann").all = [tea] ∧ Sessions.mergesOn s.merged "ann" = [coffee, tea] := by
  decide +kernel

end PeerBeam.Notes
