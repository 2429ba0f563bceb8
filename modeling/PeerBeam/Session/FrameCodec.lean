import PeerBeam.Session.Frame

/-! The session frame's codec in both directions, and the reads of a decoder that would panic outside its buffer. -/
namespace PeerBeam.Session

/-- `&buf[first..last]`; `none` is the panic of an index out of range. -/
def slice (buf : Bytes) (first last : Nat) : Option Bytes :=
  if first ≤ last ∧ last ≤ buf.length then some ((buf.drop first).take (last - first)) else none

/-- `read_array`: a slice as an array of `n` bytes. -/
def readArray (n : Nat) (bytes : Bytes) : Except SessionError Bytes :=
  if bytes.length = n then .ok bytes
  else
    let got := bytes.length
    .error (.frameDecode s!"expected {n} bytes, got {got}")

def field (buf : Bytes) (first last : Nat) : Option (Except SessionError Nat) :=
  (slice buf first last).map fun bytes => (readArray (last - first) bytes).map BigEndian.read

theorem field_of_le {buf : Bytes} {first last : Nat} (ordered : first ≤ last) (inside : last ≤ buf.length) :
    field buf first last = some (.ok (BigEndian.read ((buf.drop first).take (last - first)))) := by
  have length : ((buf.drop first).take (last - first)).length = last - first := by
    rw [List.length_take, List.length_drop]
    omega
  rw [field, slice, if_pos ⟨ordered, inside⟩, Option.map_some, readArray, if_pos length]
  rfl

namespace SessionFrame

/-- `decode` with its indexing left to fail: the outer `none` is a panic. -/
def decodeIndexed (buf : Bytes) : Option (Except SessionError SessionFrame) :=
  if buf.length < headerLen then
    let got := buf.length
    some (.error (.frameDecode s!"frame too short: {got} < {headerLen} header bytes"))
  else
    match field buf 0 8 with
    | none => none
    | some (.error e) => some (.error e)
    | some (.ok channel) =>
      match field buf 8 10 with
      | none => none
      | some (.error e) => some (.error e)
      | some (.ok messageType) =>
        match buf[10]? with
        | none => none
        | some flags =>
          match field buf 11 15 with
          | none => none
          | some (.error e) => some (.error e)
          | some (.ok len) =>
            (slice buf headerLen buf.length).map fun body =>
              if body.length ≠ len then
                let got := body.length
                .error (.frameDecode s!"payload length mismatch: header says {len}, got {got}")
              else .ok ⟨UInt64.ofNat channel, UInt16.ofNat messageType, ⟨flags⟩, body⟩

/-- Behind the length check no index is out of range. -/
theorem decodeIndexed_eq (buf : Bytes) : decodeIndexed buf = some (decode buf) := by
  rw [decodeIndexed, decode]
  by_cases short : buf.length < headerLen
  · rw [if_pos short, if_pos short]
  · have long : 15 ≤ buf.length := by
      rw [headerLen] at short
      omega
    have channel : field buf 0 8 = _ := field_of_le (by omega) (by omega)
    have type : field buf 8 10 = _ := field_of_le (by omega) (by omega)
    have length : field buf 11 15 = _ := field_of_le (by omega) (by omega)
    have flags : buf[10]? = some (buf.getD 10 0) := by
      rw [List.getD_eq_getElem?_getD, List.getElem?_eq_getElem (by omega), Option.getD_some]
    have body : slice buf headerLen buf.length = some (buf.drop headerLen) := by
      have all : (buf.drop headerLen).length = buf.length - headerLen := List.length_drop
      rw [slice, if_pos ⟨by rw [headerLen]; omega, Nat.le_refl _⟩, ← all, List.take_length]
    rw [if_neg short, if_neg short, channel, type, length, flags, body]
    rfl

/-- What decodes is what its frame encodes to: no byte of it is ignored. -/
theorem encode_of_decode {buf : Bytes} {f : SessionFrame} (h : decode buf = .ok f) : f.encode = buf := by
  rw [decode] at h
  split at h
  · cases h
  · next long =>
    have long : 15 ≤ buf.length := by
      rw [headerLen] at long
      omega
    dsimp only at h
    split at h
    · cases h
    · next exact_ =>
      have fits : (buf.drop headerLen).length = BigEndian.read ((buf.drop 11).take 4) := not_not.mp exact_
      have width (n w : Nat) (inside : n + w ≤ buf.length) : ((buf.drop n).take w).length = w := by
        rw [List.length_take, List.length_drop]
        omega
      have word (n w : Nat) (inside : n + w ≤ buf.length) :
          BigEndian.write w (BigEndian.read ((buf.drop n).take w)) = (buf.drop n).take w := by
        have same := BigEndian.write_read ((buf.drop n).take w)
        rwa [width n w inside] at same
      have small (n w : Nat) (inside : n + w ≤ buf.length) : BigEndian.read ((buf.drop n).take w) < 256 ^ w := by
        have bound := BigEndian.read_lt ((buf.drop n).take w)
        rwa [width n w inside] at bound
      have channel : (UInt64.ofNat (BigEndian.read (buf.take 8))).toNat = BigEndian.read (buf.take 8) :=
        Nat.mod_eq_of_lt (small 0 8 (by omega))
      have type : (UInt16.ofNat (BigEndian.read ((buf.drop 8).take 2))).toNat =
          BigEndian.read ((buf.drop 8).take 2) := Nat.mod_eq_of_lt (small 8 2 (by omega))
      have short : (buf.drop headerLen).length < 2 ^ 32 := fits ▸ small 11 4 (by omega)
      have first : BigEndian.write 8 (BigEndian.read (buf.take 8)) = buf.take 8 := word 0 8 (by omega)
      cases h
      dsimp only [encode]
      rw [if_pos short, channel, type, fits, first, word 8 2 (by omega), word 11 4 (by omega)]
      -- the fields of the header stand one behind the other
      have flags : buf.getD 10 0 = buf[10] := by
        rw [List.getD_eq_getElem?_getD, List.getElem?_eq_getElem (by omega), Option.getD_some]
      have rest : buf.drop 11 = (buf.drop 11).take 4 ++ buf.drop headerLen := by
        conv_lhs => rw [← List.take_append_drop 4 (buf.drop 11), List.drop_drop]
        rfl
      have tail : buf.drop 10 = buf.getD 10 0 :: buf.drop 11 := by
        rw [flags, List.drop_eq_getElem_cons (by omega)]
      have types : buf.drop 8 = (buf.drop 8).take 2 ++ buf.drop 10 := by
        conv_lhs => rw [← List.take_append_drop 2 (buf.drop 8), List.drop_drop]
      rw [← rest, ← tail, ← types, List.take_append_drop]

theorem payload_of_decode {buf : Bytes} {f : SessionFrame} (h : decode buf = .ok f) :
    f.payload.length < 2 ^ 32 := by
  rw [decode] at h
  split at h
  · cases h
  · next long =>
    dsimp only at h
    split at h
    · cases h
    · next exact_ =>
      have width : ((buf.drop 11).take 4).length = 4 := by
        rw [headerLen] at long
        rw [List.length_take, List.length_drop]
        omega
      have bound := BigEndian.read_lt ((buf.drop 11).take 4)
      rw [width] at bound
      cases h
      exact not_not.mp exact_ ▸ bound

theorem decode_error (buf : Bytes) :
    (∃ f, decode buf = .ok f) ∨ ∃ text, decode buf = .error (.frameDecode text) := by
  rw [decode]
  split
  · exact .inr ⟨_, rfl⟩
  · dsimp only
    split
    · exact .inr ⟨_, rfl⟩
    · exact .inl ⟨_, rfl⟩

/-- Decoding inverts encoding both ways, and refuses every other text of bytes without a panic. -/
theorem codec_exact :
    (∀ f : SessionFrame, f.payload.length < 2 ^ 32 → decode f.encode = .ok f) ∧
    (∀ (buf : Bytes) (f : SessionFrame), decode buf = .ok f → f.encode = buf) ∧
    (∀ buf : Bytes, (∀ f : SessionFrame, f.payload.length < 2 ^ 32 → f.encode ≠ buf) →
      ∃ text, decode buf = .error (.frameDecode text)) ∧
    ∀ buf : Bytes, decodeIndexed buf = some (decode buf) := by
  refine ⟨decode_encode, fun _ _ => encode_of_decode, fun buf other => ?_, decodeIndexed_eq⟩
  rcases decode_error buf with ⟨f, decoded⟩ | refused
  · exact absurd (encode_of_decode decoded) (other f (payload_of_decode decoded))
  · exact refused

/-- A frame of two bytes on the control channel, read back, and the same bytes with one more refused. -/
theorem short_frame_exact :
    decode (encode ⟨controlChannel, 1, .optional, [7, 9]⟩) = .ok ⟨controlChannel, 1, .optional, [7, 9]⟩ ∧
    decode (encode ⟨controlChannel, 1, .optional, [7, 9]⟩ ++ [0]) =
      .error (.frameDecode "payload length mismatch: header says 2, got 3") :=
  ⟨codec_exact.1 _ (by decide), by decide +kernel⟩

end SessionFrame

end PeerBeam.Session
