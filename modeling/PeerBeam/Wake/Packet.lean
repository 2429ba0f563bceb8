import PeerBeam.Wake.Mac

/-! Magic packets, and the broadcast that hands them to the network. -/
namespace PeerBeam.Wake

def syncStream : List UInt8 := List.replicate 6 0xFF

def macRepeats : ℕ := 16

def magicPacketLen : ℕ := syncStream.length + macLen * macRepeats

/-- `packet[at..at + src.len()].copy_from_slice(src)`. -/
def copyAt (packet : List UInt8) (start : ℕ) (src : List UInt8) : List UInt8 :=
  packet.take start ++ src ++ packet.drop (start + src.length)

def magicPacket (mac : MacAddress) : List UInt8 :=
  (List.range macRepeats).foldl (fun packet i => copyAt packet (syncStream.length + i * macLen) mac.octets.toList)
    (copyAt (List.replicate magicPacketLen 0) 0 syncStream)

/-- What a network card looks for in the traffic it sees while its machine is off. -/
def pattern (octets : Octets) : List UInt8 := syncStream ++ (List.replicate macRepeats octets.toList).flatten

def Wakes (octets : Octets) (payload : List UInt8) : Prop := pattern octets <:+: payload

structure SocketAddrV4 where
  ip : Vector UInt8 4
  port : UInt16
  deriving DecidableEq

def SocketAddrV4.toString (a : SocketAddrV4) : String :=
  String.intercalate "." (a.ip.toList.map fun b => Nat.repr b.toNat) ++ ":" ++ Nat.repr a.port.toNat

def wolPorts : List UInt16 := [9, 7]

def broadcastTargets (broadcast : Vector UInt8 4) : List SocketAddrV4 := wolPorts.map (⟨broadcast, ·⟩)

/-- Why a packet never left this machine. -/
inductive WakeError
  | storage (why : String)
  | notRecorded (device : String)
  | notPermitted (device : String)
  | send (why : String)
  deriving DecidableEq

structure WakeAttempt where
  mac : MacAddress
  sentTo : List SocketAddrV4
  bytes : ℕ

/-- What the system answers to `send_to`: how many bytes it took. -/
abbrev MagicSocket := SocketAddrV4 → Except String ℕ

structure Datagram where
  target : SocketAddrV4
  payload : List UInt8
  deriving DecidableEq

def offer (socket : MagicSocket) (packet : List UInt8) (st : List SocketAddrV4 × Option String) (target : SocketAddrV4) :
    List SocketAddrV4 × Option String :=
  match socket target with
  | .ok n =>
    if n = packet.length then (st.1 ++ [target], st.2)
    else (st.1, some (target.toString ++ " accepted only " ++ Nat.repr n ++ " of " ++ Nat.repr packet.length ++
      " bytes, which is not a magic packet"))
  | .error e => (st.1, some (target.toString ++ ": " ++ e))

def sendMagicPacket (socket : MagicSocket) (mac : MacAddress) (broadcast : Vector UInt8 4) :
    List Datagram × Except WakeError WakeAttempt :=
  let packet := magicPacket mac
  let st := (broadcastTargets broadcast).foldl (offer socket packet) ([], none)
  ((broadcastTargets broadcast).map (⟨·, packet⟩),
    if st.1 = [] then .error (.send (st.2.getD "no broadcast target was addressed"))
    else .ok ⟨mac, st.1, packet.length⟩)

/-- Copying the next part of a buffer that is filled so far. -/
theorem copyAt_append (done rest src : List UInt8) :
    copyAt (done ++ rest) done.length src = (done ++ src) ++ rest.drop src.length := by
  rw [copyAt, List.take_left, List.drop_append, List.drop_eq_nil_of_le (by omega), List.nil_append]
  congr 2
  omega

/-- The loop has filled the buffer as far as it has come. -/
theorem fill {octets : List UInt8} {width : ℕ} (wide : octets.length = width) (n : ℕ) (start rest : List UInt8) :
    (List.range n).foldl (fun packet i => copyAt packet (start.length + i * width) octets) (start ++ rest) =
      start ++ (List.replicate n octets).flatten ++ rest.drop (n * width) := by
  induction n with
  | zero => simp
  | succ n ih =>
    have place : start.length + n * width = (start ++ (List.replicate n octets).flatten).length := by simp [wide]
    rw [List.range_succ, List.foldl_append, ih, List.foldl_cons, List.foldl_nil, place, copyAt_append, List.drop_drop,
      List.append_assoc start, List.replicate_succ', List.flatten_append, List.flatten_singleton, Nat.succ_mul, wide]

theorem length_octets (octets : Octets) : octets.toList.length = 6 := octets.length_toList

theorem magicPacket_eq (mac : MacAddress) : magicPacket mac = pattern mac.octets := by
  have start : copyAt (List.replicate magicPacketLen 0) 0 syncStream = syncStream ++ List.replicate 96 0 := by decide +kernel
  rw [magicPacket, start, fill (length_octets _), List.drop_eq_nil_of_le (by rw [List.length_replicate]; decide),
    List.append_nil, pattern]

theorem length_pattern (octets : Octets) : (pattern octets).length = magicPacketLen := by
  have room : (List.replicate macRepeats octets.toList).flatten.length = macLen * macRepeats := by
    rw [List.length_flatten, List.map_replicate, List.sum_replicate, length_octets]
    rfl
  rw [pattern, List.length_append, room, magicPacketLen]

/-- A magic packet is addressed to one card. -/
theorem wakes_magicPacket (octets : Octets) (mac : MacAddress) : Wakes octets (magicPacket mac) ↔ octets = mac.octets := by
  rw [Wakes, magicPacket_eq]
  constructor
  · intro inside
    have same := inside.eq_of_length (by rw [length_pattern, length_pattern])
    have repeats := (List.append_inj same rfl).2
    rw [macRepeats, List.replicate_succ, List.replicate_succ, List.flatten_cons, List.flatten_cons] at repeats
    exact Vector.toList_inj.mp (List.append_inj repeats (by rw [length_octets, length_octets])).1
  · rintro rfl
    exact List.infix_rfl

def taken (socket : MagicSocket) (targets : List SocketAddrV4) : List SocketAddrV4 :=
  targets.filter fun target => decide (socket target = .ok magicPacketLen)

theorem offered (socket : MagicSocket) (mac : MacAddress) (targets : List SocketAddrV4)
    (st : List SocketAddrV4 × Option String) :
    (targets.foldl (offer socket (magicPacket mac)) st).1 = st.1 ++ taken socket targets := by
  have whole : (magicPacket mac).length = magicPacketLen := by rw [magicPacket_eq, length_pattern]
  induction targets generalizing st with
  | nil => rw [List.foldl_nil, taken, List.filter_nil, List.append_nil]
  | cons target targets ih =>
    have rest := ih (offer socket (magicPacket mac) st target)
    rw [List.foldl_cons, rest, taken, taken, List.filter_cons, offer, whole]
    cases answer : socket target with
    | error e => simp
    | ok n =>
      by_cases all : n = magicPacketLen
      · simp [all]
      · simp [all]

end PeerBeam.Wake
