import PeerBeam.Lib.Bytes
import PeerBeam.Lib.Checked
import PeerBeam.Lib.HexText
import PeerBeam.Groups.Record

/-! A hardware address, and a parser for the forms people actually paste. -/
namespace PeerBeam.Wake
open Checked (Stop Yields)

abbrev macLen : ℕ := 6

abbrev Octets := Vector UInt8 macLen

/-- Why a text is not a hardware address. -/
inductive MacError
  | empty
  | mixedSeparators (first second : Char)
  | groupCount (sep : Char) (expected found : ℕ) (input : String)
  | groupWidth (sep : Char) (expected found : ℕ) (group : String)
  | bareLength (found : ℕ) (input : String)
  | notHex (ch : Char) (input : String)
  | allZero
  | multicast (mac : String)
  deriving DecidableEq, Repr

inductive Panic
  | sliceRange
  | notUtf8
  | notNumber
  | unreachable
  deriving DecidableEq, Repr

abbrev Parsed := Except (Stop MacError Panic)

/-- Lower-case, colon-separated. -/
def render (octets : Octets) : String :=
  String.intercalate ":" (octets.toList.map fun b => String.ofList (HexText.encode [b]))

/-- Neither all zero nor the address of a group. -/
@[ext]
structure MacAddress where
  octets : Octets
  nonzero : octets ≠ Vector.replicate macLen 0
  individual : octets[0] &&& 1 = 0

namespace MacAddress

def new (octets : Octets) : Except MacError MacAddress :=
  if zero : octets = Vector.replicate macLen 0 then .error .allZero
  else if group : octets[0] &&& 1 ≠ 0 then .error (.multicast (render octets))
  else .ok ⟨octets, zero, not_not.mp group⟩

def toString (m : MacAddress) : String := render m.octets

end MacAddress

def isSeparator (c : Char) : Bool := c = ':' || c = '-' || c = '.'

/-- `char::is_ascii_hexdigit`. -/
def isAsciiHexdigit (c : Char) : Bool := (HexText.value c).isSome

def sawSeparator (found : Option Char) (ch : Char) : Parsed (Option Char) :=
  match found with
  | none => .ok (some ch)
  | some first => if first ≠ ch then .error (.refused (.mixedSeparators first ch)) else .ok (some first)

/-- Which separator the address uses, none for a bare run of digits. -/
def separator (input : String) : Parsed (Option Char) :=
  (input.toList.filter isSeparator).foldlM sawSeparator none

def slice (bytes : List UInt8) (start stop : ℕ) : Parsed (List UInt8) :=
  if start ≤ stop ∧ stop ≤ bytes.length then .ok ((bytes.drop start).take (stop - start))
  else .error (.panicked .sliceRange)

/-- `u8::from_str_radix` of a text of two bytes. -/
def fromStrRadix (pair : String) : Option UInt8 :=
  match pair.toList with
  | [high, low] => HexText.readByte high low
  | _ => none

def octetAt (digits : String) (i : Fin macLen) : Parsed UInt8 := do
  let bytes ← slice (TextBytes.utf8 digits) (i * 2) (i * 2 + 2)
  let pair ← Checked.expect .notUtf8 (TextBytes.ofUtf8 bytes)
  Checked.expect .notNumber (fromStrRadix pair)

def octetsFromHex (digits input : String) : Parsed Octets :=
  match digits.toList.find? fun c => !isAsciiHexdigit c with
  | some ch => .error (.refused (.notHex ch input))
  | none => Vector.ofFnM (octetAt digits)

def checkWidth (sep : Char) (width : ℕ) (part : String) : Parsed PUnit :=
  let found := part.toList.length
  if found ≠ width then .error (.refused (.groupWidth sep width found part)) else .ok PUnit.unit

def grouped (input : String) (sep : Char) (groups width : ℕ) : Parsed MacAddress :=
  let parts := (input.toList.splitOn sep).map String.ofList
  if parts.length ≠ groups then .error (.refused (.groupCount sep groups parts.length input))
  else do
    forM parts (checkWidth sep width)
    let octets ← octetsFromHex (String.join parts) input
    Checked.lift (MacAddress.new octets)

def fromSeparated (input : String) : Option Char → Parsed MacAddress
  | some sep =>
    if sep = ':' ∨ sep = '-' then grouped input sep 6 2
    else if sep = '.' then grouped input sep 3 4
    else .error (.panicked .unreachable)
  | none =>
    if input.toList.length ≠ macLen * 2 then .error (.refused (.bareLength input.toList.length input))
    else do
      let octets ← octetsFromHex input input
      Checked.lift (MacAddress.new octets)

def fromStr (s : String) : Parsed MacAddress :=
  let input := Groups.trim s
  if input.toList = [] then .error (.refused .empty) else separator input >>= fromSeparated input

inductive Shape
  | bare
  | colons
  | hyphens
  | dots
  deriving DecidableEq

namespace Shape

def sep : Shape → Option Char
  | bare => none
  | colons => some ':'
  | hyphens => some '-'
  | dots => some '.'

def groups : Shape → ℕ
  | bare => 1
  | colons => 6
  | hyphens => 6
  | dots => 3

def width : Shape → ℕ
  | bare => 12
  | colons => 2
  | hyphens => 2
  | dots => 4

def Spells (shape : Shape) (text digits : List Char) : Prop :=
  ∃ parts : List (List Char), parts.length = shape.groups ∧ (∀ part ∈ parts, part.length = shape.width) ∧
    text = shape.sep.toList.intercalate parts ∧ digits = parts.flatten

end Shape

/-- In whatever case, the digits are the octets in their order, two for each. -/
def Reads (digits : List Char) (octets : Octets) : Prop := digits.map Char.toLower = HexText.encode octets.toList

def Uses (text : List Char) (found : Option Char) : Prop := ∀ c, c ∈ text ∧ isSeparator c = true ↔ found = some c

theorem MacAddress.new_eq_ok_iff (octets : Octets) (m : MacAddress) :
    MacAddress.new octets = .ok m ↔ octets = m.octets := by
  unfold MacAddress.new
  split_ifs with zero group
  · refine iff_of_false nofun fun same => m.nonzero (same ▸ zero)
  · refine iff_of_false nofun fun same => group (same ▸ m.individual)
  · rw [Except.ok.injEq, MacAddress.ext_iff]

theorem isSeparator_iff {c : Char} : isSeparator c = true ↔ c = ':' ∨ c = '-' ∨ c = '.' := by
  simp only [isSeparator, Bool.or_eq_true, decide_eq_true_eq, or_assoc]

theorem not_isSeparator_of_value {c : Char} (hex : HexText.value c ≠ none) : ¬ isSeparator c = true := by
  intro there
  obtain rfl | rfl | rfl := isSeparator_iff.mp there
  all_goals exact hex (by decide)

theorem scan_yields (first : Char) (l : List Char) :
    Yields (l.foldlM sawSeparator (some first)) fun found => found = some first ∧ ∀ c ∈ l, c = first := by
  induction l with
  | nil => exact (Yields.ok (some first)).congr fun found => by simp [eq_comm]
  | cons ch l ih =>
    rw [List.foldlM_cons, sawSeparator]
    by_cases other : first ≠ ch
    · rw [if_pos other]
      exact Yields.refused _ fun found h => other (h.2 ch List.mem_cons_self).symm
    · obtain rfl := not_not.mp other
      rw [if_neg other]
      refine ih.congr fun found => ?_
      rw [List.forall_mem_cons]
      exact and_congr_right' (and_iff_right rfl).symm

theorem separator_yields (input : String) : Yields (separator input) (Uses input.toList) := by
  have uses (found : Option Char) : Uses input.toList found ↔ ∀ c, c ∈ input.toList.filter isSeparator ↔ found = some c :=
    forall_congr' fun c => by rw [List.mem_filter]
  unfold separator
  cases seps : input.toList.filter isSeparator with
  | nil =>
    refine (Yields.ok none).congr fun found => ?_
    rw [uses, seps]
    cases found <;> simp
  | cons first l =>
    refine (scan_yields first l).congr fun found => ?_
    rw [uses, seps]
    constructor
    · intro ⟨here, same⟩ c
      rw [here, Option.some.injEq, List.mem_cons]
      exact ⟨fun mem => (mem.elim id (same c)).symm, fun same => .inl same.symm⟩
    · intro h
      have here := (h first).mp List.mem_cons_self
      exact ⟨here, fun c mem => Option.some.inj (((h c).mp (List.mem_cons_of_mem _ mem)).symm.trans here)⟩

theorem length_of_reads {digits : List Char} {octets : Octets} (reads : Reads digits octets) : digits.length = 12 := by
  have same := congrArg List.length reads
  rwa [List.length_map, HexText.length_encode, Vector.length_toList] at same

theorem reads_inj {digits : List Char} {octets octets' : Octets} (reads : Reads digits octets)
    (reads' : Reads digits octets') : octets = octets' :=
  Vector.toList_inj.mp (HexText.encode_injective (reads.symm.trans reads'))

/-- Twelve hex digits are always six octets. -/
theorem exists_reads_iff {digits : List Char} :
    (∃ octets, Reads digits octets) ↔ digits.length = 12 ∧ ∀ c ∈ digits, isAsciiHexdigit c = true := by
  constructor
  · intro ⟨octets, reads⟩
    refine ⟨length_of_reads reads, fun c mem => ?_⟩
    exact Option.isSome_iff_ne_none.mpr (HexText.value_of_lower_encode reads c mem)
  · intro ⟨twelve, hex⟩
    obtain ⟨bytes, length, same⟩ := HexText.exists_lower_encode (n := 6) twelve fun c mem =>
      Option.isSome_iff_ne_none.mp (hex c mem)
    exact ⟨⟨bytes.toArray, length⟩, same⟩

theorem utf8_of_reads {digits : List Char} {octets : Octets} (reads : Reads digits octets) :
    ∀ c ∈ digits, c.toNat < 128 := by
  intro c mem
  obtain ⟨n, value⟩ := Option.ne_none_iff_exists'.mp (HexText.value_of_lower_encode reads c mem)
  unfold HexText.value at value
  split_ifs at value <;> omega

theorem pair_of_reads {digits : List Char} {octets : Octets} (reads : Reads digits octets) (i : Fin macLen) :
    ∃ high low, (digits.drop (i * 2)).take 2 = [high, low] ∧ HexText.readByte high low = some octets[i] := by
  have inside : i < octets.toList.length := by rw [Vector.length_toList]; exact i.isLt
  have lower : ((digits.drop (i * 2)).take 2).map Char.toLower = HexText.encode [octets[i]] := by
    rw [List.map_take, List.map_drop, show digits.map Char.toLower = _ from reads, Nat.mul_comm, HexText.pair_encode inside]
    rfl
  have two : ((digits.drop (i * 2)).take 2).length = 2 := by
    rw [← List.length_map Char.toLower, lower]
    rfl
  obtain ⟨high, low, same⟩ := List.length_eq_two.mp two
  rw [same] at lower
  exact ⟨high, low, same, HexText.readByte_of_lower lower⟩

theorem slice_of_reads {digits : String} {octets : Octets} (reads : Reads digits.toList octets) (i : Fin macLen) :
    slice (TextBytes.utf8 digits) (i * 2) (i * 2 + 2) =
      .ok (TextBytes.utf8 (String.ofList ((digits.toList.drop (i * 2)).take 2))) := by
  have ascii := utf8_of_reads reads
  have bytes : TextBytes.utf8 digits = digits.toList.map fun c => UInt8.ofNat c.toNat := by
    conv_lhs => rw [← String.ofList_toList (s := digits)]
    exact TextBytes.utf8_ofList_of_ascii ascii
  have inside : (i : ℕ) < 6 := i.isLt
  have range : (i : ℕ) * 2 ≤ i * 2 + 2 ∧ (i : ℕ) * 2 + 2 ≤ (TextBytes.utf8 digits).length := by
    rw [bytes, List.length_map, length_of_reads reads]
    omega
  rw [slice, if_pos range, bytes, Nat.add_sub_cancel_left, ← List.map_drop, ← List.map_take,
    TextBytes.utf8_ofList_of_ascii fun c mem => ascii c (List.mem_of_mem_drop (List.mem_of_mem_take mem))]

theorem octetAt_of_reads {digits : String} {octets : Octets} (reads : Reads digits.toList octets) (i : Fin macLen) :
    octetAt digits i = .ok octets[i] := by
  obtain ⟨high, low, pair, byte⟩ := pair_of_reads reads i
  have number : fromStrRadix (String.ofList [high, low]) = some octets[i] := by
    rw [fromStrRadix, String.toList_ofList]
    exact byte
  calc octetAt digits i
    _ = Checked.expect .notUtf8 (TextBytes.ofUtf8 (TextBytes.utf8 (String.ofList [high, low]))) >>= fun pair =>
        Checked.expect .notNumber (fromStrRadix pair) := by rw [octetAt, slice_of_reads reads, pair]; rfl
    _ = Checked.expect .notNumber (fromStrRadix (String.ofList [high, low])) := by rw [TextBytes.ofUtf8_utf8]; rfl
    _ = .ok octets[i] := by rw [number]; rfl

theorem octetsFromHex_yields {digits : String} (input : String) (twelve : digits.toList.length = 12) :
    Yields (octetsFromHex digits input) (Reads digits.toList) := by
  unfold octetsFromHex
  cases found : digits.toList.find? fun c => !isAsciiHexdigit c with
  | some ch =>
    refine Yields.refused _ fun octets reads => ?_
    have hex := (exists_reads_iff.mp ⟨octets, reads⟩).2 ch (List.mem_of_find?_eq_some found)
    have other := List.find?_some found
    rw [hex] at other
    cases other
  | none =>
    obtain ⟨octets, reads⟩ : ∃ octets, Reads digits.toList octets := by
      refine exists_reads_iff.mpr ⟨twelve, fun c mem => ?_⟩
      simpa using List.find?_eq_none.mp found c mem
    have each : octetAt digits = fun i => pure octets[i] := funext (octetAt_of_reads reads)
    have all : Vector.ofFnM (octetAt digits) = .ok octets := by
      rw [each, Vector.ofFnM_pure]
      exact congrArg Except.ok Vector.ofFn_getElem
    dsimp only
    rw [all]
    refine (Yields.ok octets).congr fun octets' => ⟨?_, reads_inj reads⟩
    intro same
    exact same ▸ reads

/-- The octets, if they make an address. -/
theorem address_yields {digits : String} (input : String) (twelve : digits.toList.length = 12) :
    Yields (octetsFromHex digits input >>= fun octets => Checked.lift (MacAddress.new octets))
      fun m : MacAddress => Reads digits.toList m.octets := by
  refine ((octetsFromHex_yields input twelve).bind fun octets _ =>
    Yields.lift (MacAddress.new_eq_ok_iff octets)).congr fun m => ?_
  exact ⟨fun ⟨octets, reads, same⟩ => same ▸ reads, fun reads => ⟨m.octets, reads, rfl⟩⟩

theorem filter_intercalate {p : Char → Bool} {sep : List Char} (none_ : ∀ c ∈ sep, ¬ p c = true)
    (parts : List (List Char)) : (sep.intercalate parts).filter p = parts.flatten.filter p := by
  induction parts with
  | nil => rfl
  | cons part parts ih =>
    cases parts with
    | nil => rw [List.intercalate_singleton, List.flatten_singleton]
    | cons next parts =>
      rw [List.intercalate_cons_cons, List.filter_append, List.filter_append, List.filter_eq_nil_iff.mpr none_, ih,
        List.append_nil, ← List.filter_append, ← List.flatten_cons]

namespace Shape
variable {shape : Shape} {text digits : List Char} {octets : Octets}

theorem twelve (shape : Shape) : shape.groups * shape.width = 12 := by
  cases shape <;> rfl

theorem sep_inj {shape' : Shape} (same : shape.sep = shape'.sep) : shape = shape' := by
  cases shape <;> cases shape' <;> first | rfl | cases same

theorem isSeparator_of_sep {c : Char} (h : shape.sep = some c) : isSeparator c = true := by
  cases shape <;> cases h <;> rfl

theorem groups_of_sep {c : Char} (h : shape.sep = some c) : 2 ≤ shape.groups := by
  cases shape with
  | bare => cases h
  | colons => decide
  | hyphens => decide
  | dots => decide

/-- Nothing but the separator stands between the digits. -/
theorem Spells.uses (spells : shape.Spells text digits) (reads : Reads digits octets) : Uses text shape.sep := by
  obtain ⟨parts, count, -, rfl, rfl⟩ := spells
  intro c
  constructor
  · intro ⟨mem, separates⟩
    by_contra other
    have none_ : ∀ d ∈ shape.sep.toList, ¬ decide (d = c) = true := by
      intro d mem same
      exact other ((Option.mem_toList.mp mem).trans (congrArg some (of_decide_eq_true same)))
    have there : c ∈ (shape.sep.toList.intercalate parts).filter fun d => d = c :=
      List.mem_filter.mpr ⟨mem, decide_eq_true rfl⟩
    rw [filter_intercalate none_] at there
    exact not_isSeparator_of_value (HexText.value_of_lower_encode reads c (List.mem_of_mem_filter there)) separates
  · intro here
    refine ⟨?_, isSeparator_of_sep here⟩
    have several := groups_of_sep here
    match parts, count with
    | first :: next :: rest, _ =>
      rw [List.intercalate_cons_cons, here]
      simp
    | [_], count => rw [← count] at several; simp at several
    | [], count => rw [← count] at several; simp at several

/-- The hex digits of the text are the digits. -/
theorem Spells.filter (spells : shape.Spells text digits) (reads : Reads digits octets) :
    text.filter isAsciiHexdigit = digits := by
  obtain ⟨parts, -, -, rfl, rfl⟩ := spells
  have hex := (exists_reads_iff.mp ⟨octets, reads⟩).2
  rw [filter_intercalate, List.filter_eq_self.mpr hex]
  intro c mem digit
  exact not_isSeparator_of_value (Option.isSome_iff_ne_none.mp digit) (isSeparator_of_sep (Option.mem_toList.mp mem))

/-- The groups are what a split gives. -/
theorem splitOn_of_parts {sep : Char} {parts : List (List Char)} (separates : shape.sep = some sep)
    (count : parts.length = shape.groups) (reads : Reads parts.flatten octets) :
    (shape.sep.toList.intercalate parts).splitOn sep = parts := by
  have nonempty : parts ≠ [] := by
    rintro rfl
    have several := groups_of_sep separates
    rw [← count] at several
    cases several
  rw [separates]
  refine List.splitOn_intercalate sep (fun part mem there => ?_) nonempty
  have value := HexText.value_of_lower_encode reads sep (List.mem_flatten.mpr ⟨part, mem, there⟩)
  exact not_isSeparator_of_value value (isSeparator_of_sep separates)

theorem spells_iff {sep : Char} (separates : shape.sep = some sep) :
    (∃ digits, shape.Spells text digits ∧ Reads digits octets) ↔
      (text.splitOn sep).length = shape.groups ∧ (∀ part ∈ text.splitOn sep, part.length = shape.width) ∧
        Reads (text.splitOn sep).flatten octets := by
  constructor
  · rintro ⟨_, ⟨parts, count, width, rfl, rfl⟩, reads⟩
    rw [splitOn_of_parts separates count reads]
    exact ⟨count, width, reads⟩
  · intro ⟨count, width, reads⟩
    refine ⟨_, ⟨text.splitOn sep, count, width, ?_, rfl⟩, reads⟩
    rw [separates]
    exact (List.intercalate_splitOn sep).symm

theorem bare_spells_iff : bare.Spells text digits ↔ text.length = 12 ∧ digits = text := by
  constructor
  · rintro ⟨parts, count, width, rfl, rfl⟩
    obtain ⟨part, rfl⟩ := List.length_eq_one_iff.mp count
    rw [List.intercalate_singleton, List.flatten_singleton]
    exact ⟨width part (List.mem_singleton_self part), rfl⟩
  · intro ⟨long, same⟩
    subst same
    exact ⟨[digits], rfl, fun part mem => List.mem_singleton.mp mem ▸ long, List.intercalate_singleton.symm,
      List.flatten_singleton.symm⟩

end Shape

/-- The digits in the groups are twelve. -/
theorem length_flatten_of_width {parts : List (List Char)} {width : ℕ} (each : ∀ part ∈ parts, part.length = width) :
    parts.flatten.length = parts.length * width := by
  rw [List.length_flatten, List.map_congr_left each, List.map_const', List.sum_replicate, smul_eq_mul]

theorem checkWidth_yields (sep : Char) (width : ℕ) (part : String) :
    Yields (checkWidth sep width part) fun _ => part.toList.length = width := by
  unfold checkWidth
  by_cases other : part.toList.length ≠ width
  · rw [if_pos other]
    exact Yields.refused _ fun _ same => other same
  · rw [if_neg other]
    exact (Yields.ok PUnit.unit).congr fun _ => iff_of_true rfl (not_not.mp other)

theorem grouped_yields {shape : Shape} {sep : Char} (separates : shape.sep = some sep) (input : String) :
    Yields (grouped input sep shape.groups shape.width)
      fun m => ∃ digits, shape.Spells input.toList digits ∧ Reads digits m.octets := by
  unfold grouped
  dsimp only
  rw [List.length_map]
  by_cases count : (input.toList.splitOn sep).length ≠ shape.groups
  · rw [if_pos count]
    exact Yields.refused _ fun m spells => count ((Shape.spells_iff separates).mp spells).1
  · rw [if_neg count]
    have joined : (String.join ((input.toList.splitOn sep).map String.ofList)).toList =
        (input.toList.splitOn sep).flatten := by
      rw [String.toList_join, List.flatMap_map, List.flatten_eq_flatMap]
      exact List.flatMap_congr fun part _ => String.toList_ofList
    have lengths : (∀ part ∈ (input.toList.splitOn sep).map String.ofList, part.toList.length = shape.width) ↔
        ∀ part ∈ input.toList.splitOn sep, part.length = shape.width := by
      rw [List.forall_mem_map]
      exact forall₂_congr fun part _ => by rw [String.toList_ofList]
    refine ((Yields.forM (checkWidth_yields sep shape.width) _).bind fun _ widths => address_yields input ?_).congr ?_
    · rw [joined, length_flatten_of_width (lengths.mp widths), not_not.mp count, shape.twelve]
    · intro m
      rw [Shape.spells_iff separates, lengths, joined]
      exact ⟨fun ⟨_, widths, reads⟩ => ⟨not_not.mp count, widths, reads⟩,
        fun ⟨_, widths, reads⟩ => ⟨PUnit.unit, widths, reads⟩⟩

theorem fromSeparated_yields (shape : Shape) (input : String) :
    Yields (fromSeparated input shape.sep)
      fun m => ∃ digits, shape.Spells input.toList digits ∧ Reads digits m.octets := by
  cases shape with
  | bare =>
    simp only [Shape.bare_spells_iff]
    rw [Shape.sep, fromSeparated]
    by_cases long : input.toList.length ≠ macLen * 2
    · rw [if_pos long]
      exact Yields.refused _ fun m ⟨digits, ⟨twelve, _⟩, _⟩ => long twelve
    · rw [if_neg long]
      refine (address_yields input (not_not.mp long)).congr fun m => ?_
      exact ⟨fun reads => ⟨_, ⟨not_not.mp long, rfl⟩, reads⟩, fun ⟨digits, ⟨_, same⟩, reads⟩ => same ▸ reads⟩
  | colons => exact @grouped_yields .colons ':' rfl input
  | hyphens => exact @grouped_yields .hyphens '-' rfl input
  | dots => exact @grouped_yields .dots '.' rfl input

theorem exists_sep {text : List Char} {found : Option Char} (uses : Uses text found) : ∃ shape : Shape, shape.sep = found := by
  cases found with
  | none => exact ⟨.bare, rfl⟩
  | some sep =>
    obtain rfl | rfl | rfl := isSeparator_iff.mp ((uses sep).mpr rfl).2
    · exact ⟨.colons, rfl⟩
    · exact ⟨.hyphens, rfl⟩
    · exact ⟨.dots, rfl⟩

/-- The parser yields the addresses that some shape spells, and nothing panics. -/
theorem fromStr_yields (s : String) :
    Yields (fromStr s)
      fun m => ∃ shape : Shape, ∃ digits, shape.Spells (Groups.trim s).toList digits ∧ Reads digits m.octets := by
  unfold fromStr
  generalize Groups.trim s = input
  dsimp only
  by_cases blank : input.toList = []
  · rw [if_pos blank]
    refine Yields.refused _ fun m ⟨shape, digits, spells, reads⟩ => ?_
    have none_ := spells.filter reads
    rw [blank] at none_
    subst none_
    cases length_of_reads reads
  · rw [if_neg blank]
    have branch (found : Option Char) (uses : Uses input.toList found) :
        Yields (fromSeparated input found) fun m => ∃ shape : Shape, shape.sep = found ∧
          ∃ digits, shape.Spells input.toList digits ∧ Reads digits m.octets := by
      obtain ⟨shape, rfl⟩ := exists_sep uses
      refine (fromSeparated_yields shape input).congr fun m => ⟨fun there => ⟨shape, rfl, there⟩, ?_⟩
      intro ⟨shape', same, there⟩
      exact Shape.sep_inj same ▸ there
    refine ((separator_yields input).bind branch).congr fun m => ⟨?_, ?_⟩
    · intro ⟨found, _, shape, _, digits, there⟩
      exact ⟨shape, digits, there⟩
    · intro ⟨shape, digits, spells, reads⟩
      exact ⟨shape.sep, spells.uses reads, shape, rfl, digits, spells, reads⟩

theorem trim_of_not_isWhitespace {text : List Char} (plain : ∀ c ∈ text, ¬ Groups.isWhitespace c = true) :
    Groups.trim (String.ofList text) = String.ofList text := by
  have front : text.dropWhile Groups.isWhitespace = text := by
    cases text with
    | nil => rfl
    | cons c text => exact List.dropWhile_cons_of_neg (plain c List.mem_cons_self)
  have back : text.rdropWhile Groups.isWhitespace = text :=
    List.rdropWhile_eq_self_iff.mpr fun nonempty => plain _ (List.getLast_mem nonempty)
  rw [Groups.trim, String.toList_ofList, front, back]

theorem render_eq (octets : Octets) :
    render octets = String.ofList ([':'].intercalate (octets.toList.map fun b => HexText.encode [b])) := by
  have parts : (octets.toList.map fun b => String.ofList (HexText.encode [b])).map String.toList =
      octets.toList.map fun b => HexText.encode [b] := by
    rw [List.map_map]
    exact List.map_congr_left fun b _ => String.toList_ofList
  rw [← String.toList_inj, render, String.toList_intercalate, parts, String.toList_ofList]
  exact String.toList_ofList.symm

theorem flatten_encode (bytes : List UInt8) : (bytes.map fun b => HexText.encode [b]).flatten = HexText.encode bytes := by
  rw [← List.flatMap_def]
  exact List.flatMap_congr fun b _ => List.append_nil _

theorem spells_render (octets : Octets) : Shape.colons.Spells (render octets).toList (HexText.encode octets.toList) := by
  refine ⟨octets.toList.map fun b => HexText.encode [b], ?_, ?_, ?_, (flatten_encode _).symm⟩
  · rw [List.length_map, Vector.length_toList]
    rfl
  · exact List.forall_mem_map.mpr fun b _ => rfl
  · rw [render_eq, String.toList_ofList]
    rfl

theorem trim_render (octets : Octets) : Groups.trim (render octets) = render octets := by
  have sep : ∀ c ∈ [':'], ¬ Groups.isWhitespace c = true := List.forall_mem_singleton.mpr (by decide)
  have plain : ∀ n < 16, ¬ Groups.isWhitespace (HexText.digit n) = true := by decide
  rw [render_eq]
  apply trim_of_not_isWhitespace
  rw [← List.filter_eq_nil_iff, filter_intercalate sep, flatten_encode, List.filter_eq_nil_iff]
  intro c mem
  obtain ⟨n, small, rfl⟩ := HexText.mem_encode mem
  exact plain n small

theorem fromStr_toString (m : MacAddress) : fromStr m.toString = .ok m := by
  refine ((fromStr_yields _).ok_iff m).mpr ⟨.colons, HexText.encode m.octets.toList, ?_, HexText.lower_encode _⟩
  rw [MacAddress.toString, trim_render]
  exact spells_render m.octets

def digitsOf (s : String) : List Char := (Groups.trim s).toList.filter isAsciiHexdigit

theorem reads_of_fromStr {s : String} {m : MacAddress} (read : fromStr s = .ok m) : Reads (digitsOf s) m.octets := by
  obtain ⟨shape, digits, spells, reads⟩ := ((fromStr_yields s).ok_iff m).mp read
  rw [digitsOf, spells.filter reads]
  exact reads

/-- The parser accepts the four notations of an address and nothing else, reads what is written, tells addresses apart
by their digits, and no text makes it panic. -/
theorem fromStr_exact :
    (∀ s octets, (∃ m, fromStr s = .ok m ∧ m.octets = octets) ↔
      (∃ shape : Shape, ∃ digits, shape.Spells (Groups.trim s).toList digits ∧
        (∀ c ∈ digits, isAsciiHexdigit c = true) ∧ Reads digits octets) ∧
      octets ≠ Vector.replicate macLen 0 ∧ octets[0] &&& 1 = 0) ∧
    (∀ m, fromStr m.toString = .ok m) ∧
    (∀ s s' m m', fromStr s = .ok m → fromStr s' = .ok m' →
      (m = m' ↔ (digitsOf s).map Char.toLower = (digitsOf s').map Char.toLower)) ∧
    ∀ s site, fromStr s ≠ .error (.panicked site) := by
  refine ⟨fun s octets => ⟨?_, ?_⟩, fromStr_toString, fun s s' m m' read read' => ?_, fun s => (fromStr_yields s).calm⟩
  · rintro ⟨m, read, rfl⟩
    obtain ⟨shape, digits, spells, reads⟩ := ((fromStr_yields s).ok_iff m).mp read
    exact ⟨⟨shape, digits, spells, (exists_reads_iff.mp ⟨_, reads⟩).2, reads⟩, m.nonzero, m.individual⟩
  · intro ⟨⟨shape, digits, spells, _, reads⟩, nonzero, individual⟩
    exact ⟨⟨octets, nonzero, individual⟩, ((fromStr_yields s).ok_iff _).mpr ⟨shape, digits, spells, reads⟩, rfl⟩
  · rw [reads_of_fromStr read, reads_of_fromStr read', HexText.encode_injective.eq_iff, Vector.toList_inj,
      MacAddress.ext_iff]

end PeerBeam.Wake
