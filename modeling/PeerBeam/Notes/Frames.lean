import PeerBeam.Lib.JsonText
import PeerBeam.Notes.Exchange
import PeerBeam.Session.Frame

/-! Batches of notes as frames: the text a batch is sent as, and which note sets fit their frames. -/
namespace PeerBeam.Notes
open JsonText (expect quoted readQuoted)
open Session (Bytes ChannelId MessageFlags SessionFrame)
open TextBytes (length_utf8 ofUtf8 ofUtf8_utf8 utf8 utf8_ofList)

def boolJson (b : Bool) : Bytes := utf8 (if b then "true" else "false")

def fieldJson (name value : String) : Bytes := utf8 name ++ quoted (utf8 value)

/-- `serde_json::to_vec` of a note. -/
def Note.json (n : Note) : Bytes :=
  fieldJson "\x7b\"id\":" n.id ++ (fieldJson ",\"title\":" n.title ++ (fieldJson ",\"body\":" n.body ++
    (fieldJson ",\"updated_at\":" n.updatedAt ++ (utf8 ",\"deleted\":" ++ (boolJson n.deleted ++ utf8 "\x7d")))))

def notesJson : List Note → Bytes
  | [] => []
  | [n] => n.json
  | n :: notes => n.json ++ (utf8 "," ++ notesJson notes)

/-- `serde_json::to_vec` of a batch. -/
def NoteBatch.json (b : NoteBatch) : Bytes :=
  utf8 "\x7b\"notes\":[" ++ (notesJson b.notes ++ (utf8 "],\"more\":" ++ (boolJson b.more ++
    (utf8 ",\"reply\":" ++ (boolJson b.reply ++ utf8 "\x7d")))))

def readField (name : String) (text : Bytes) : Option (String × Bytes) := do
  let text ← expect (utf8 name) text
  let (value, text) ← readQuoted text
  let value ← ofUtf8 value
  some (value, text)

def readBool (text : Bytes) : Option (Bool × Bytes) :=
  match expect (utf8 "true") text with
  | some rest => some (true, rest)
  | none => (expect (utf8 "false") text).map (false, ·)

def readNote (text : Bytes) : Option (Note × Bytes) := do
  let (id, text) ← readField "\x7b\"id\":" text
  let (title, text) ← readField ",\"title\":" text
  let (body, text) ← readField ",\"body\":" text
  let (updatedAt, text) ← readField ",\"updated_at\":" text
  let text ← expect (utf8 ",\"deleted\":") text
  let (deleted, text) ← readBool text
  let text ← expect (utf8 "\x7d") text
  some (⟨id, title, body, updatedAt, deleted⟩, text)

def readNotes : ℕ → Bytes → Option (List Note × Bytes)
  | 0, _ => none
  | fuel + 1, text => do
    let (n, text) ← readNote text
    match expect (utf8 ",") text with
    | some text =>
      let (notes, text) ← readNotes fuel text
      some (n :: notes, text)
    | none => some ([n], text)

def readArray (text : Bytes) : Option (List Note × Bytes) :=
  if text.head? = some 93 then some ([], text) else readNotes text.length text

def readBatch (text : Bytes) : Option NoteBatch := do
  let text ← expect (utf8 "\x7b\"notes\":[") text
  let (notes, text) ← readArray text
  let text ← expect (utf8 "],\"more\":") text
  let (more, text) ← readBool text
  let text ← expect (utf8 ",\"reply\":") text
  let (reply, text) ← readBool text
  let _ ← expect (utf8 "\x7d") text
  some ⟨notes, more, reply⟩

theorem readField_fieldJson (name value : String) (rest : Bytes) :
    readField name (fieldJson name value ++ rest) = some (value, rest) := by
  rw [readField, fieldJson, List.append_assoc, JsonText.expect_append]
  simp only [Option.bind_eq_bind, Option.bind_some, JsonText.readQuoted_quoted, ofUtf8_utf8]

/-- Another first byte is another text. -/
theorem expect_of_head {literal text : Bytes} {b : UInt8} (head : literal.head? = some b)
    (other : text.head? ≠ some b) : expect literal text = none := by
  rw [expect, if_neg]
  rintro ⟨rest, rfl⟩
  cases literal with
  | nil => cases head
  | cons c literal => exact other head

theorem readBool_boolJson (b : Bool) (rest : Bytes) : readBool (boolJson b ++ rest) = some (b, rest) := by
  have yes : (utf8 "true").head? = some 116 := congrArg List.head? (utf8_ofList _)
  have no : (utf8 "false").head? = some 102 := congrArg List.head? (utf8_ofList _)
  rw [readBool, boolJson]
  cases b with
  | true =>
    rw [if_pos rfl, JsonText.expect_append]
  | false =>
    rw [if_neg Bool.false_ne_true, expect_of_head yes (by rw [List.head?_append, no, Option.some_or]; decide), JsonText.expect_append]
    rfl

theorem readNote_json (n : Note) (rest : Bytes) : readNote (n.json ++ rest) = some (n, rest) := by
  simp only [readNote, Note.json, List.append_assoc, readField_fieldJson, JsonText.expect_append, readBool_boolJson,
    Option.bind_eq_bind, Option.bind_some]

theorem head_json (n : Note) : n.json.head? = some 123 := by
  have brace : (utf8 "\x7b\"id\":").head? = some 123 := congrArg List.head? (utf8_ofList _)
  rw [Note.json, fieldJson, List.append_assoc, List.head?_append, brace]
  rfl

theorem readNotes_json {notes : List Note} (some_ : notes ≠ []) {rest : Bytes} (closed : rest.head? = some 93)
    {fuel : ℕ} (enough : notes.length ≤ fuel) : readNotes fuel (notesJson notes ++ rest) = some (notes, rest) := by
  have comma : (utf8 ",").head? = some 44 := congrArg List.head? (utf8_ofList _)
  induction notes generalizing fuel with
  | nil => exact absurd rfl some_
  | cons n notes ih =>
    cases fuel with
    | zero => cases enough
    | succ fuel =>
      cases notes with
      | nil =>
        have stop : expect (utf8 ",") rest = none := expect_of_head comma (by rw [closed]; decide)
        rw [notesJson, readNotes, readNote_json]
        simp only [Option.bind_eq_bind, Option.bind_some, stop]
      | cons m notes =>
        have next := ih (List.cons_ne_nil m notes) (Nat.le_of_succ_le_succ enough)
        rw [notesJson, readNotes, List.append_assoc, readNote_json, List.append_assoc]
        · simp only [Option.bind_eq_bind, Option.bind_some, JsonText.expect_append, next]
        · exact List.cons_ne_nil m notes

theorem length_le_notesJson (notes : List Note) : notes.length ≤ (notesJson notes).length := by
  have one (n : Note) : 1 ≤ n.json.length := by
    have head := head_json n
    cases text : n.json with
    | nil =>
      rw [text] at head
      cases head
    | cons b rest => exact Nat.le_add_left 1 _
  induction notes with
  | nil => exact Nat.zero_le _
  | cons n notes ih =>
    cases notes with
    | nil => exact one n
    | cons m notes =>
      have first := one n
      rw [notesJson, List.length_append, List.length_append, List.length_cons]
      · omega
      · exact List.cons_ne_nil m notes

theorem readArray_json (notes : List Note) {rest : Bytes} (closed : rest.head? = some 93) :
    readArray (notesJson notes ++ rest) = some (notes, rest) := by
  rw [readArray]
  cases notes with
  | nil => exact if_pos closed
  | cons n notes =>
    have head : (notesJson (n :: notes) ++ rest).head? = some 123 := by
      cases notes with
      | nil =>
        rw [notesJson, List.head?_append, head_json]
        rfl
      | cons m notes =>
        rw [notesJson, List.append_assoc, List.head?_append, head_json]
        · rfl
        · exact List.cons_ne_nil m notes
    rw [head, if_neg (by decide)]
    apply readNotes_json (List.cons_ne_nil n notes) closed
    have long := length_le_notesJson (n :: notes)
    rw [List.length_append]
    omega

/-- What is written is read back. -/
theorem readBatch_json (b : NoteBatch) : readBatch b.json = some b := by
  have bracket : (utf8 "],\"more\":").head? = some 93 := congrArg List.head? (utf8_ofList _)
  have closed (rest : Bytes) : (utf8 "],\"more\":" ++ rest).head? = some 93 := by
    rw [List.head?_append, bracket]
    rfl
  simp only [readBatch, NoteBatch.json, JsonText.expect_append, Option.bind_eq_bind, Option.bind_some,
    readArray_json b.notes (closed _), readBool_boolJson]
  have brace : expect (utf8 "\x7d") (utf8 "\x7d") = some [] := by
    have last := JsonText.expect_append (utf8 "\x7d") []
    rwa [List.append_nil] at last
  rw [brace]
  rfl

def parse (text : Bytes) : Except String NoteBatch :=
  match readBatch text with
  | some b => .ok b
  | none => .error "expected value"

theorem parse_json (b : NoteBatch) : parse b.json = .ok b := by
  rw [parse, readBatch_json]

def msgNoteBatch : UInt16 := 1

namespace NoteBatch

/-- `to_frame`. -/
def toFrame (channel : ChannelId) (b : NoteBatch) : Except NoteError SessionFrame :=
  let payload := b.json
  if maxBatchBytes < payload.length then
    .error (.serialization ("batch of " ++ toString payload.length ++ " bytes exceeds 262144"))
  else .ok ⟨channel, msgNoteBatch, ⟨MessageFlags.optional.bits ||| MessageFlags.endOfMessage.bits⟩, payload⟩

/-- `from_frame`, with what `serde_json::from_slice` makes of a payload. -/
def ofFrame (fromSlice : Bytes → Except String NoteBatch) (frame : SessionFrame) : Except NoteError NoteBatch :=
  if frame.messageType ≠ msgNoteBatch then
    .error (.serialization ("unexpected notes message type " ++ toString frame.messageType))
  else if maxBatchBytes < frame.payload.length then
    .error (.serialization ("batch of " ++ toString frame.payload.length ++ " bytes exceeds 262144"))
  else
    match fromSlice frame.payload with
    | .error e => .error (.serialization e)
    | .ok batch => fromFrame frame.payload.length batch

/-- A note that `Note::at` made, or its tombstone. -/
def Offered (n : Note) : Prop :=
  (∃ now id title body, Note.at now id title body = .ok n) ∨
  ∃ m now now' id title body, Note.at now id title body = .ok m ∧ n = m.tombstone now'

theorem check_of_at {now id title body : String} {n : Note} (made : Note.at now id title body = .ok n) :
    n.id = id ∧ Note.check n.id n.title n.body = .ok () := by
  rw [Note.at] at made
  cases checked : Note.check id title body with
  | error e =>
    rw [checked] at made
    cases made
  | ok u =>
    rw [checked] at made
    cases made
    exact ⟨rfl, checked⟩

theorem check_of_offered {n : Note} (offered : Offered n) : Note.check n.id n.title n.body = .ok () := by
  rcases offered with ⟨now, id, title, body, made⟩ | ⟨m, now, now', id, title, body, made, rfl⟩
  · exact (check_of_at made).2
  · have checked := (check_of_at made).2
    rw [Note.check] at checked ⊢
    split at checked
    · cases checked
    · next bounded =>
      exact if_neg bounded

/-- A batch whose text fits is sent, and accepted as what it is. -/
theorem ofFrame_toFrame {fromSlice : Bytes → Except String NoteBatch} {b : NoteBatch}
    (reads : fromSlice b.json = .ok b) (channel : ChannelId) (short : b.notes.length ≤ maxBatchNotes)
    (offered : ∀ n ∈ b.notes, Offered n) :
    (∃ frame, toFrame channel b = .ok frame ∧ ofFrame fromSlice frame = .ok b) ↔ b.json.length ≤ maxBatchBytes := by
  rw [toFrame]
  by_cases long : maxBatchBytes < b.json.length
  · rw [if_pos long]
    refine iff_of_false ?_ (Nat.not_le.mpr long)
    rintro ⟨frame, made, -⟩
    cases made
  · rw [if_neg long]
    refine iff_of_true ⟨_, rfl, ?_⟩ (Nat.not_lt.mp long)
    rw [ofFrame, if_neg (not_not.mpr rfl), if_neg long, reads]
    exact NoteStore.fromFrame_ok (Nat.not_lt.mp long) short fun n mem => check_of_offered (offered n mem)

/-- How many bytes a string is written as, between its quotes. -/
def escapedSize (text : String) : Nat := ((utf8 text).map JsonText.escapedSize).sum

def boolSize (b : Bool) : Nat := if b then 4 else 5

def noteSize (n : Note) : Nat :=
  escapedSize n.id + escapedSize n.title + escapedSize n.body + escapedSize n.updatedAt + boolSize n.deleted + 58

def textSize (b : NoteBatch) : Nat := (b.notes.map noteSize).sum - 1 + boolSize b.more + boolSize b.reply + 29

theorem length_boolJson (b : Bool) : (boolJson b).length = boolSize b := by
  cases b <;> exact length_utf8 _

theorem length_fieldJson (name value : String) :
    (fieldJson name value).length = (utf8 name).length + escapedSize value + 2 := by
  rw [fieldJson, List.length_append, JsonText.length_quoted]
  rfl

theorem length_note (n : Note) : n.json.length + 1 = noteSize n := by
  have id : (utf8 "\x7b\"id\":").length = 6 := length_utf8 _
  have title : (utf8 ",\"title\":").length = 9 := length_utf8 _
  have body : (utf8 ",\"body\":").length = 8 := length_utf8 _
  have stamp : (utf8 ",\"updated_at\":").length = 14 := length_utf8 _
  have deleted : (utf8 ",\"deleted\":").length = 11 := length_utf8 _
  have brace : (utf8 "\x7d").length = 1 := length_utf8 _
  simp only [Note.json, List.length_append, length_fieldJson, length_boolJson, id, title, body, stamp, deleted, brace,
    noteSize]
  omega

theorem length_notesJson (notes : List Note) : (notesJson notes).length = (notes.map noteSize).sum - 1 := by
  have comma : (utf8 ",").length = 1 := length_utf8 _
  induction notes with
  | nil => rfl
  | cons n notes ih =>
    have own := length_note n
    cases notes with
    | nil =>
      rw [notesJson, List.map_singleton, List.sum_singleton]
      omega
    | cons m notes =>
      have some_ : 0 < ((m :: notes).map noteSize).sum := by
        rw [List.map_cons, List.sum_cons, ← length_note m]
        omega
      have sum : ((n :: m :: notes).map noteSize).sum = noteSize n + ((m :: notes).map noteSize).sum := List.sum_cons
      rw [notesJson, List.length_append, List.length_append, comma, ih, sum]
      · omega
      · exact List.cons_ne_nil m notes

theorem length_json (b : NoteBatch) : b.json.length = textSize b := by
  have opened : (utf8 "\x7b\"notes\":[").length = 10 := length_utf8 _
  have more : (utf8 "],\"more\":").length = 9 := length_utf8 _
  have reply : (utf8 ",\"reply\":").length = 9 := length_utf8 _
  have brace : (utf8 "\x7d").length = 1 := length_utf8 _
  simp only [json, List.length_append, length_notesJson, length_boolJson, opened, more, reply, brace, textSize]
  omega

def Within (notes : List Note) : Prop :=
  notes.length ≤ 1 ∨ notes.length ≤ maxBatchNotes ∧ (notes.map cost).sum ≤ maxBatchBytes

/-- Cut where the estimate is reached, each part of the notes has a text that fits a frame. -/
inductive Fits (reply : Bool) : List Note → Prop
  | last {notes : List Note} : Within notes → textSize ⟨notes, false, reply⟩ ≤ maxBatchBytes → Fits reply notes
  | cut {part rest : List Note} {n : Note} : part ≠ [] → Within part → ¬ Within (part ++ [n]) →
    textSize ⟨part, true, reply⟩ ≤ maxBatchBytes → Fits reply (n :: rest) → Fits reply (part ++ n :: rest)

theorem within_append {notes more : List Note} (within : Within (notes ++ more)) : Within notes := by
  rw [Within, List.length_append, List.map_append, List.sum_append] at within
  rcases within with one | ⟨count, size⟩
  · exact .inl (by omega)
  · exact .inr ⟨by omega, by omega⟩

/-- The loop's test, for the notes of the open batch. -/
theorem full_iff {current : List Note} {n : Note} :
    (current ≠ [] ∧ (maxBatchNotes ≤ current.length ∨ maxBatchBytes < (current.map cost).sum + cost n)) ↔
      current ≠ [] ∧ ¬ Within (current ++ [n]) := by
  rw [Within, List.length_append, List.map_append, List.sum_append, List.length_singleton, List.map_singleton,
    List.sum_singleton]
  refine and_congr_right fun some_ => ?_
  have long := List.length_pos_iff.mpr some_
  omega

theorem splitFrom_within {reply : Bool} {current notes : List Note} (within : Within (current ++ notes)) :
    splitFrom reply notes current (current.map cost).sum = [⟨current ++ notes, false, reply⟩] := by
  induction notes generalizing current with
  | nil => rw [splitFrom, List.append_nil]
  | cons n notes ih =>
    have joined : current ++ n :: notes = (current ++ [n]) ++ notes := by simp
    rw [joined] at within ⊢
    have room : ¬ (current ≠ [] ∧ ¬ Within (current ++ [n])) := fun full => full.2 (within_append within)
    have sum : (current.map cost).sum + cost n = ((current ++ [n]).map cost).sum := by simp
    rw [splitFrom, if_neg (fun full => room (full_iff.mp full)), sum, ih within]

theorem splitFrom_cut {reply : Bool} {current part rest : List Note} {n : Note} (some_ : current ++ part ≠ [])
    (within : Within (current ++ part)) (full : ¬ Within (current ++ part ++ [n])) :
    splitFrom reply (part ++ n :: rest) current (current.map cost).sum =
      ⟨current ++ part, true, reply⟩ :: split (n :: rest) reply := by
  induction part generalizing current with
  | nil =>
    rw [List.append_nil] at some_ within full
    rw [List.nil_append, splitFrom, if_pos (full_iff.mpr ⟨some_, full⟩), List.append_nil, split, splitFrom,
      if_neg (fun h => h.1 rfl), List.nil_append, Nat.zero_add]
  | cons m part ih =>
    have joined : current ++ m :: part = (current ++ [m]) ++ part := by simp
    rw [joined] at some_ within full ⊢
    have room : ¬ (current ≠ [] ∧ ¬ Within (current ++ [m])) := fun stop => stop.2 (within_append within)
    have sum : (current.map cost).sum + cost m = ((current ++ [m]).map cost).sum := by simp
    rw [List.cons_append, splitFrom, if_neg (fun stop => room (full_iff.mp stop)), sum, ih some_ within full]

theorem split_of_within {reply : Bool} {notes : List Note} (within : Within notes) :
    split notes reply = [⟨notes, false, reply⟩] := by
  rw [split]
  exact splitFrom_within within

theorem split_of_cut {reply : Bool} {part rest : List Note} {n : Note} (some_ : part ≠ []) (within : Within part)
    (full : ¬ Within (part ++ [n])) :
    split (part ++ n :: rest) reply = ⟨part, true, reply⟩ :: split (n :: rest) reply := by
  rw [split]
  exact splitFrom_cut some_ within full

/-- Notes that are not within the estimate are cut somewhere. -/
theorem exists_cut {current notes : List Note} (within : Within current) (beyond : ¬ Within (current ++ notes)) :
    ∃ part n rest, notes = part ++ n :: rest ∧ Within (current ++ part) ∧ ¬ Within (current ++ part ++ [n]) := by
  induction notes generalizing current with
  | nil => exact absurd (by rwa [List.append_nil]) beyond
  | cons m notes ih =>
    by_cases room : Within (current ++ [m])
    · have joined : current ++ m :: notes = (current ++ [m]) ++ notes := by simp
      rw [joined] at beyond
      obtain ⟨part, n, rest, rfl, inside, full⟩ := ih room beyond
      exact ⟨m :: part, n, rest, rfl, by simpa using inside, by simpa using full⟩
    · exact ⟨[], m, notes, rfl, by rwa [List.append_nil], by rwa [List.append_nil]⟩

theorem fits_iff {reply : Bool} {notes : List Note} :
    Fits reply notes ↔ ∀ b ∈ split notes reply, textSize b ≤ maxBatchBytes := by
  constructor
  · intro fits
    induction fits with
    | last within small =>
      rw [split_of_within within]
      simpa using small
    | cut some_ within full small _ ih =>
      rw [split_of_cut some_ within full]
      exact List.forall_mem_cons.mpr ⟨small, ih⟩
  · induction h : notes.length using Nat.strong_induction_on generalizing notes with
    | _ length ih =>
      intro small
      by_cases within : Within notes
      · rw [split_of_within within] at small
        exact .last within (small _ (List.mem_singleton_self _))
      · cases notes with
        | nil => exact absurd (.inl (Nat.zero_le 1)) within
        | cons first notes =>
          have one : Within [first] := .inl (Nat.le_refl 1)
          obtain ⟨part, n, rest, rfl, inside, full⟩ := exists_cut one within
          rw [← List.cons_append, split_of_cut (List.cons_ne_nil first part) inside full] at small
          obtain ⟨fitsFirst, fitsRest⟩ := List.forall_mem_cons.mp small
          refine .cut (List.cons_ne_nil first part) inside full fitsFirst (ih _ ?_ rfl fitsRest)
          rw [← h]
          simp

/-- Every batch of a split is encoded, accepted as it was and short enough; together they are the notes in order, and
only the last says that no more follow. -/
structure Sent (fromSlice : Bytes → Except String NoteBatch) (channel : ChannelId) (notes : List Note) (reply : Bool) :
    Prop where
  frames : ∀ b ∈ split notes reply, ∃ frame, toFrame channel b = .ok frame ∧ ofFrame fromSlice frame = .ok b
  order : Sequence (split notes reply) notes reply

/-- A set of notes can be sent exactly when each part of it, cut where the sender's estimate is reached, has a text that
fits a frame. -/
theorem sent_iff (fromSlice : Bytes → Except String NoteBatch) (reads : ∀ b, fromSlice b.json = .ok b)
    (channel : ChannelId) (notes : List Note) (offered : ∀ n ∈ notes, Offered n) (reply : Bool) :
    Sent fromSlice channel notes reply ↔ Fits reply notes := by
  have order := split_sequence notes reply
  have frames (b : NoteBatch) (mem : b ∈ split notes reply) :
      (∃ frame, toFrame channel b = .ok frame ∧ ofFrame fromSlice frame = .ok b) ↔
        textSize b ≤ maxBatchBytes := by
    rw [← length_json]
    refine ofFrame_toFrame (reads b) channel (order.length b mem) fun n memN => offered n ?_
    rw [← order.notes]
    exact List.mem_flatMap.mpr ⟨b, mem, memN⟩
  rw [fits_iff, ← forall₂_congr frames]
  exact ⟨fun sent => sent.frames, fun all => ⟨all, order⟩⟩

/-- Two notes, one with a quote and a line break in its body. -/
theorem escaped_notes_sent :
    let notes : List Note := [⟨"a", "", "say \"hi\"\n", "t1", false⟩, ⟨"b", "", "", "t2", true⟩]
    Sent parse 7 notes false :=
  (sent_iff parse parse_json 7 [⟨"a", "", "say \"hi\"\n", "t1", false⟩, ⟨"b", "", "", "t2", true⟩]
    (List.forall_mem_cons.mpr ⟨.inl ⟨"t1", "a", "", "say \"hi\"\n", by decide +kernel⟩,
      List.forall_mem_singleton.mpr (.inr ⟨⟨"b", "", "old", "t1", false⟩, "t1", "t2", "b", "", "old", by decide +kernel, rfl⟩)⟩)
    false).mpr (.last (.inr (by decide +kernel)) (by decide +kernel))

theorem utf8_replicate (count : ℕ) {c : Char} {b : UInt8} (one : String.utf8EncodeChar c = [b]) :
    utf8 (String.ofList (List.replicate count c)) = List.replicate count b := by
  rw [utf8_ofList, List.flatMap_replicate, one]
  simp

/-- A body as long as a body may be, of characters that are escaped. -/
theorem control_body_unsent :
    let body := String.ofList (List.replicate 65536 (Char.ofNat 1))
    let n : Note := ⟨"n1", "", body, "2026-01-01T00:00:00Z", false⟩
    Note.at "2026-01-01T00:00:00Z" "n1" "" body = .ok n ∧ ¬ Sent parse 7 [n] false := by
  intro body n
  have bytes : utf8 body = List.replicate 65536 1 := utf8_replicate 65536 (by decide)
  have size : body.utf8ByteSize = 65536 := by
    rw [← length_utf8, bytes, List.length_replicate]
  have escaped : escapedSize n.body = 65536 * 6 := by
    show escapedSize body = _
    rw [escapedSize, bytes, List.map_replicate, List.sum_replicate_nat]
    rfl
  have made : Note.at "2026-01-01T00:00:00Z" "n1" "" body = .ok n := by
    have id : "n1".utf8ByteSize = 2 := rfl
    have title : "".utf8ByteSize = 0 := rfl
    rw [Note.at, Note.check, id, title, size]
    rfl
  refine ⟨made, fun sent => ?_⟩
  have cut : split [n] false = [⟨[n], false, false⟩] := split_of_within (.inl (Nat.le_refl 1))
  have offered (m : Note) (mem : m ∈ [n]) : Offered m :=
    .inl ⟨_, _, _, _, List.mem_singleton.mp mem ▸ made⟩
  have fits := (ofFrame_toFrame (parse_json ⟨[n], false, false⟩) 7 (by decide) offered).mp
    (sent.frames _ (cut ▸ List.mem_singleton_self _))
  have long : 65536 * 6 ≤ textSize ⟨[n], false, false⟩ := by
    rw [textSize, List.map_singleton, List.sum_singleton, noteSize]
    omega
  rw [length_json, maxBatchBytes] at fits
  omega

end NoteBatch

end PeerBeam.Notes
