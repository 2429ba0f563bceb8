import PeerBeam.Sync.Delta

/-! What a receiver has to fetch for a chunk map, and the two ways it puts the file together: into
a writer, chunk by chunk, and in memory under a ceiling. -/
namespace PeerBeam.Sync

/-- The declared size. The lengths are a peer's, so the sum may wrap, as it does in a release build. -/
def totalBytes (chunks : List Chunk) : UInt64 :=
  chunks.foldl (fun total c => total + UInt64.ofNat c.len) 0

/-- What a receiver needs in order to build the sender's version. -/
structure Need where
  fetch : List String := []
  fetchBytes : UInt64 := 0
  reuseBytes : UInt64 := 0

/-- One turn of `plan`, with the hashes asked for so far. -/
def planStep (held : List String) (acc : Need × List String) (c : Chunk) : Need × List String :=
  let (need, asked) := acc
  if c.hash ∈ held then ({ need with reuseBytes := need.reuseBytes + UInt64.ofNat c.len }, asked)
  else if c.hash ∈ asked then
    -- Already being fetched; it will be written to both places.
    ({ need with reuseBytes := need.reuseBytes + UInt64.ofNat c.len }, asked)
  else
    ({ need with
      fetch := need.fetch ++ [c.hash]
      fetchBytes := need.fetchBytes + UInt64.ofNat c.len }, c.hash :: asked)

/-- Work out which chunks a receiver that holds `held` must fetch. -/
def plan (chunks : List Chunk) (held : List String) : Need := (chunks.foldl (planStep held) ({}, [])).1

def maxReassemble : UInt64 := 256 * 1024 * 1024

section
variable (hash : Bytes → String) {σ ω : Type*}

/-- `reassemble_into`, with a supplier and a writer that keep a state: the states at the end and
the bytes written, nothing when a chunk is missing, is not what it is called, or is not taken. -/
def reassembleIntoWriter (supply : σ → String → Option Bytes × σ) (writeAll : ω → Bytes → Option ω) :
    List Chunk → σ → ω → (written : UInt64) → Option (σ × ω × UInt64)
  | [], s, out, written => some (s, out, written)
  | c :: rest, s, out, written =>
    match supply s c.hash with
    | (none, _) => none
    | (some bytes, s) =>
      if bytes.length ≠ c.len then none
      else if hash bytes ≠ c.hash then none
      else
        match writeAll out bytes with
        | none => none
        | some out => reassembleIntoWriter supply writeAll rest s out (written + UInt64.ofNat bytes.length)

/-- The loop of `reassemble`. -/
def reassembleLoop (supply : σ → String → Option Bytes × σ) : List Chunk → σ → Bytes → Option Bytes
  | [], _, out => some out
  | c :: rest, s, out =>
    match supply s c.hash with
    | (none, _) => none
    | (some bytes, s) =>
      if bytes.length ≠ c.len then none
      else if hash bytes ≠ c.hash then none
      else reassembleLoop supply rest s (out ++ bytes)

/-- `reassemble_into`, accumulating into memory. The declared size is refused before it is trusted. -/
def reassemble (supply : σ → String → Option Bytes × σ) (chunks : List Chunk) (s : σ) : Option Bytes :=
  if maxReassemble < totalBytes chunks then none else reassembleLoop hash supply chunks s []

end

/-- An empty `Vec`: every write is taken. -/
def Bytes.writeAll (out bytes : Bytes) : Option Bytes := some (out ++ bytes)

def lookUp (pool : String → Option Bytes) (_ : Unit) (want : String) : Option Bytes × Unit :=
  (pool want, ())

/-- What `plan` has settled after the chunks `seen`. -/
private structure Planning (held : List String) (seen : List Chunk) (acc : Need × List String) :
    Prop where
  asked : ∀ want, want ∈ acc.2 ↔ want ∈ acc.1.fetch
  mem : ∀ want, want ∈ acc.1.fetch ↔ want ∈ seen.map Chunk.hash ∧ want ∉ held
  once : acc.1.fetch.Nodup
  order : acc.1.fetch.Pairwise fun a b =>
    (seen.map Chunk.hash).idxOf a < (seen.map Chunk.hash).idxOf b
  bytes : acc.1.fetchBytes + acc.1.reuseBytes = totalBytes seen

private theorem totalBytes_concat (seen : List Chunk) (c : Chunk) :
    totalBytes (seen ++ [c]) = totalBytes seen + UInt64.ofNat c.len := by
  rw [totalBytes, List.foldl_append]
  rfl

/-- A chunk whose hash needs no fetch of its own is reused. -/
private theorem Planning.reuse {held : List String} {seen : List Chunk} {need : Need}
    {asked : List String} (p : Planning held seen (need, asked)) {c : Chunk}
    (known : c.hash ∈ held ∨ c.hash ∈ seen.map Chunk.hash) :
    Planning held (seen ++ [c])
      ({ need with reuseBytes := need.reuseBytes + UInt64.ofNat c.len }, asked) where
  asked := p.asked
  mem := by
    intro want
    rw [p.mem, List.map_append, List.mem_append, List.map_singleton, List.mem_singleton]
    constructor
    · exact fun ⟨at', missing⟩ => ⟨.inl at', missing⟩
    · rintro ⟨at' | rfl, missing⟩
      · exact ⟨at', missing⟩
      · exact ⟨known.resolve_left missing, missing⟩
  once := p.once
  order := by
    refine p.order.imp_of_mem fun first second before => ?_
    rw [List.map_append, List.idxOf_append_of_mem ((p.mem _).mp first).1,
      List.idxOf_append_of_mem ((p.mem _).mp second).1]
    exact before
  bytes := by rw [← UInt64.add_assoc, p.bytes, totalBytes_concat]

private theorem planning_step {held : List String} {seen : List Chunk} {acc : Need × List String}
    (p : Planning held seen acc) (c : Chunk) : Planning held (seen ++ [c]) (planStep held acc c) := by
  obtain ⟨need, asked⟩ := acc
  rw [planStep]
  by_cases own : c.hash ∈ held
  · rw [if_pos own]
    exact p.reuse (.inl own)
  rw [if_neg own]
  by_cases again : c.hash ∈ asked
  · rw [if_pos again]
    exact p.reuse (.inr ((p.mem _).mp ((p.asked _).mp again)).1)
  rw [if_neg again]
  have unseen : c.hash ∉ seen.map Chunk.hash := fun at' =>
    again ((p.asked _).mpr ((p.mem _).mpr ⟨at', own⟩))
  constructor
  · intro want
    rw [List.mem_cons, List.mem_append, List.mem_singleton, p.asked]
    exact or_comm
  · intro want
    rw [List.mem_append, List.mem_singleton, p.mem, List.map_append, List.mem_append,
      List.map_singleton, List.mem_singleton]
    constructor
    · rintro (⟨at', missing⟩ | rfl)
      · exact ⟨.inl at', missing⟩
      · exact ⟨.inr rfl, own⟩
    · rintro ⟨at' | rfl, missing⟩
      · exact .inl ⟨at', missing⟩
      · exact .inr rfl
  · apply List.nodup_append.mpr
    refine ⟨p.once, List.nodup_singleton _, fun a at' b last same => ?_⟩
    rw [List.mem_singleton.mp last] at same
    exact unseen (same ▸ ((p.mem a).mp at').1)
  · apply List.pairwise_append.mpr
    refine ⟨p.order.imp_of_mem fun first second before => ?_, List.pairwise_singleton _ _,
      fun a at' b last => ?_⟩
    · rw [List.map_append, List.idxOf_append_of_mem ((p.mem _).mp first).1,
        List.idxOf_append_of_mem ((p.mem _).mp second).1]
      exact before
    · have held' := ((p.mem a).mp at').1
      rw [List.mem_singleton.mp last, List.map_append, List.idxOf_append_of_mem held',
        List.idxOf_append_of_notMem unseen]
      exact (List.idxOf_lt_length_of_mem held').trans_le (Nat.le_add_right _ _)
  · change need.fetchBytes + UInt64.ofNat c.len + need.reuseBytes = _
    rw [totalBytes_concat, ← p.bytes, UInt64.add_assoc, UInt64.add_assoc,
      UInt64.add_comm (UInt64.ofNat c.len)]

private theorem planning (held : List String) (chunks : List Chunk) :
    Planning held chunks (chunks.foldl (planStep held) ({}, [])) := by
  induction chunks using List.reverseRecOn with
  | nil => exact ⟨fun _ => Iff.rfl, by simp, List.nodup_nil, List.Pairwise.nil, rfl⟩
  | append_singleton seen c ih =>
    rw [List.foldl_append]
    exact planning_step ih c

/-- What a plan promises: every hash that is not held, once, in the order of the map, and the bytes of
the map split between what is fetched and what is reused. -/
structure Planned (chunks : List Chunk) (held : List String) (need : Need) : Prop where
  mem : ∀ want, want ∈ need.fetch ↔ want ∈ chunks.map Chunk.hash ∧ want ∉ held
  once : need.fetch.Nodup
  order : need.fetch.Pairwise fun a b =>
    (chunks.map Chunk.hash).idxOf a < (chunks.map Chunk.hash).idxOf b
  bytes : need.fetchBytes + need.reuseBytes = totalBytes chunks

theorem planned_plan (chunks : List Chunk) (held : List String) :
    Planned chunks held (plan chunks held) :=
  have p := planning held chunks
  ⟨p.mem, p.once, p.order, p.bytes⟩

section
variable {hash : Bytes → String} {σ : Type*}

/-- They accept the same chunks and build the same bytes. -/
theorem reassembleLoop_eq (supply : σ → String → Option Bytes × σ) (chunks : List Chunk) (s : σ)
    (out : Bytes) (written : UInt64) :
    reassembleLoop hash supply chunks s out =
      (reassembleIntoWriter hash supply Bytes.writeAll chunks s out written).map (·.2.1) := by
  induction chunks generalizing s out written with
  | nil => rfl
  | cons c rest ih =>
    rw [reassembleLoop, reassembleIntoWriter]
    split
    · rfl
    · next bytes s' _ =>
      by_cases length : bytes.length ≠ c.len
      · rw [if_pos length, if_pos length, Option.map_none]
      rw [if_neg length, if_neg length]
      by_cases name : hash bytes ≠ c.hash
      · rw [if_pos name, if_pos name, Option.map_none]
      rw [if_neg name, if_neg name]
      exact ih ..

theorem reassemble_iff_into (supply : σ → String → Option Bytes × σ) {chunks : List Chunk} (s : σ)
    (b : Bytes) (small : totalBytes chunks ≤ maxReassemble) :
    reassemble hash supply chunks s = some b ↔ ∃ s' written,
      reassembleIntoWriter hash supply Bytes.writeAll chunks s [] 0 = some (s', b, written) := by
  rw [reassemble, if_neg (UInt64.not_lt.mpr small), reassembleLoop_eq supply chunks s [] 0,
    Option.map_eq_some_iff]
  constructor
  · rintro ⟨⟨s', _, written⟩, whole, rfl⟩
    exact ⟨s', written, whole⟩
  · rintro ⟨s', written, whole⟩
    exact ⟨_, whole, rfl⟩

/-- The pool holds what the plan says and nothing else, and every chunk of the map as the map
describes it. -/
structure Stocked (hash : Bytes → String) (pool : String → Option Bytes) (chunks : List Chunk)
    (held : List String) : Prop where
  exactly : ∀ want, (pool want).isSome ↔ want ∈ held ∨ want ∈ (plan chunks held).fetch
  named : ∀ want bytes, pool want = some bytes → hash bytes = want
  length : ∀ c ∈ chunks, ∀ bytes, pool c.hash = some bytes → bytes.length = c.len

theorem Stocked.supplied {pool : String → Option Bytes} {chunks : List Chunk} {held : List String}
    (stocked : Stocked hash pool chunks held) {c : Chunk} (mem : c ∈ chunks) :
    ∃ bytes, pool c.hash = some bytes ∧ bytes.length = c.len ∧ hash bytes = c.hash := by
  have there : (pool c.hash).isSome := by
    apply (stocked.exactly c.hash).mpr
    by_cases own : c.hash ∈ held
    · exact .inl own
    · exact .inr (((planned_plan chunks held).mem _).mpr ⟨List.mem_map_of_mem mem, own⟩)
  obtain ⟨bytes, got⟩ := Option.isSome_iff_exists.mp there
  exact ⟨bytes, got, stocked.length c mem bytes got, stocked.named _ _ got⟩

/-- Chunks that are all supplied as the map describes them are put together in order. -/
theorem reassembleLoop_supplied {pool : String → Option Bytes} {chunks : List Chunk}
    (supplied : ∀ c ∈ chunks, ∃ bytes, pool c.hash = some bytes ∧ bytes.length = c.len ∧
      hash bytes = c.hash) (out : Bytes) :
    reassembleLoop hash (lookUp pool) chunks () out =
      some (out ++ chunks.flatMap fun c => (pool c.hash).getD []) := by
  induction chunks generalizing out with
  | nil => rw [reassembleLoop, List.flatMap_nil, List.append_nil]
  | cons c rest ih =>
    obtain ⟨⟨bytes, got, length, name⟩, later⟩ := List.forall_mem_cons.mp supplied
    simp only [reassembleLoop, lookUp, got]
    rw [if_neg (not_not.mpr length), if_neg (not_not.mpr name)]
    rw [ih later, List.flatMap_cons, got, List.append_assoc]
    rfl

theorem reassemble_stocked {pool : String → Option Bytes} {chunks : List Chunk} {held : List String}
    (stocked : Stocked hash pool chunks held) :
    (reassemble hash (lookUp pool) chunks ()).isSome ↔ totalBytes chunks ≤ maxReassemble := by
  rw [reassemble]
  by_cases large : maxReassemble < totalBytes chunks
  · rw [if_pos large]
    exact ⟨fun none => (nomatch none), fun small => absurd large (UInt64.not_lt.mpr small)⟩
  · rw [if_neg large, reassembleLoop_supplied fun c mem => stocked.supplied mem]
    exact ⟨fun _ => UInt64.not_lt.mp large, fun _ => rfl⟩

end

/-- The plan is what it promises; a pool stocked by it is put together exactly under the ceiling; and
under the ceiling both assemblers accept the same inputs and build the same bytes. -/
theorem plan_reassembles (hash : Bytes → String) (chunks : List Chunk) :
    (∀ held, Planned chunks held (plan chunks held)) ∧
    (∀ held pool, Stocked hash pool chunks held →
      ((reassemble hash (lookUp pool) chunks ()).isSome ↔ totalBytes chunks ≤ maxReassemble)) ∧
    ∀ (σ : Type) (supply : σ → String → Option Bytes × σ) (s : σ) (b : Bytes),
      totalBytes chunks ≤ maxReassemble →
        (reassemble hash supply chunks s = some b ↔ ∃ s' written,
          reassembleIntoWriter hash supply Bytes.writeAll chunks s [] 0 = some (s', b, written)) :=
  ⟨planned_plan chunks, fun _ _ => reassemble_stocked, fun _ supply s b => reassemble_iff_into supply s b⟩

private theorem stocked_single (c : Chunk) :
    Stocked (fun _ => c.hash)
      (fun want => if want = c.hash then some (List.replicate c.len 0) else none) [c] [] := by
  constructor
  · intro want
    have fetch : (plan [c] []).fetch = [c.hash] := rfl
    rw [fetch, List.mem_singleton, Option.isSome_ite]
    exact ⟨.inr, fun known => known.resolve_left List.not_mem_nil⟩
  · intro want bytes got
    split at got
    · next at' => exact at'.symm
    · cases got
  · intro d mem bytes got
    rw [List.mem_singleton.mp mem, if_pos rfl] at got
    rw [List.mem_singleton.mp mem, ← Option.some.inj got, List.length_replicate]

/-- A map above the ceiling is refused, whatever the pool holds. -/
theorem stocked_pool_refused :
    let large : Chunk := ⟨0, 268435457, "large"⟩
    ∃ pool, Stocked (fun _ => "large") pool [large] [] ∧
      reassemble (fun _ => "large") (lookUp pool) [large] () = none := by
  intro large
  have above : maxReassemble < totalBytes [large] := by decide
  exact ⟨_, stocked_single large, if_pos above⟩

end PeerBeam.Sync
