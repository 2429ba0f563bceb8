import PeerBeam.Sync.Delta

/-! Where a file is cut depends on nothing past the cut. Splitting is therefore a partition that
can be taken up again at every boundary, and an edit leaves the chunks before it alone. -/
namespace PeerBeam.Sync

theorem lt_scan_of_ne_nil (digest : UInt64) (i : Nat) {data : Bytes} (nonempty : data ≠ []) :
    i < scan digest i data := by
  cases data with
  | nil => exact absurd rfl nonempty
  | cons b rest =>
    rw [scan]
    split
    · exact Nat.lt_succ_self i
    · have := (scan_bounds ((digest <<< 1) + gear b) (i + 1) rest).1
      omega

/-- The scan finds the same cut in whatever agrees with its bytes up to there, if it stopped before
their end, or if there is nothing more. -/
theorem scan_local {digest : UInt64} {i : Nat} {data other : Bytes}
    (same : other.take (scan digest i data - i) = data.take (scan digest i data - i))
    (ends : scan digest i data < i + data.length ∧ scan digest i data ≤ i + other.length ∨
      i + other.length = scan digest i data) :
    scan digest i other = scan digest i data := by
  induction data generalizing digest i other with
  | nil =>
    have empty : other.length = 0 := by
      simp only [scan, List.length_nil] at ends
      omega
    rw [List.length_eq_zero_iff.mp empty]
  | cons b rest ih =>
    have later := lt_scan_of_ne_nil digest i (List.cons_ne_nil b rest)
    cases other with
    | nil =>
      rw [List.length_nil] at ends
      omega
    | cons b' rest' =>
      obtain ⟨k, step⟩ : ∃ k, scan digest i (b :: rest) - i = k + 1 :=
        ⟨scan digest i (b :: rest) - i - 1, by omega⟩
      rw [step, List.take_succ_cons, List.take_succ_cons] at same
      obtain ⟨rfl, tail⟩ := List.cons.inj same
      rw [List.length_cons, List.length_cons] at ends
      by_cases hit : (digest <<< 1) + gear b' &&& mask = 0
      · rw [scan, scan, if_pos hit, if_pos hit]
      · have next : scan digest i (b' :: rest) = scan ((digest <<< 1) + gear b') (i + 1) rest := by
          rw [scan, if_neg hit]
        rw [next] at step ends ⊢
        rw [scan, if_neg hit]
        apply ih
        · rw [show scan ((digest <<< 1) + gear b') (i + 1) rest - (i + 1) = k by omega]
          exact tail
        · omega

private def window (data : Bytes) : Bytes := (data.take (min data.length maxChunk)).drop minChunk

private theorem length_window (data : Bytes) :
    (window data).length = min data.length maxChunk - minChunk := by
  rw [window, List.length_drop, List.length_take]
  omega

private theorem take_window {data : Bytes} {n : Nat} (fits : n ≤ min data.length maxChunk) :
    (window data).take (n - minChunk) = (data.take n).drop minChunk := by
  rw [window, ← List.drop_take, List.take_take, min_eq_left fits]

theorem minChunk_lt_maxChunk : minChunk < maxChunk := by decide

private theorem nextBoundary_of_lt {data : Bytes} (long : minChunk < data.length) :
    nextBoundary data = scan 0 minChunk (window data) := by
  rw [nextBoundary, if_neg (Nat.not_le.mpr long)]
  rfl

/-- A chunk that is not the rest of the file has the least length, and none is too long. -/
theorem nextBoundary_sizes (data : Bytes) :
    nextBoundary data ≤ maxChunk ∧ (nextBoundary data < data.length → minChunk ≤ nextBoundary data) := by
  have := minChunk_lt_maxChunk
  by_cases long : minChunk < data.length
  · obtain ⟨low, high⟩ := scan_bounds 0 minChunk (window data)
    rw [length_window] at high
    rw [nextBoundary_of_lt long]
    omega
  · rw [nextBoundary, if_pos (Nat.not_lt.mp long)]
    omega

/-- A cut depends only on the bytes before it: it falls at the same place in all that begins with
them, unless the file ended there. -/
theorem nextBoundary_local {data other : Bytes}
    (same : other.take (nextBoundary data) = data.take (nextBoundary data))
    (ends : nextBoundary data < data.length ∧ nextBoundary data ≤ other.length ∨
      other.length = nextBoundary data) : nextBoundary other = nextBoundary data := by
  by_cases long : minChunk < data.length
  · have := minChunk_lt_maxChunk
    have filled : window data ≠ [] := by
      apply List.ne_nil_of_length_pos
      rw [length_window]
      omega
    have low := lt_scan_of_ne_nil 0 minChunk filled
    have high := (scan_bounds 0 minChunk (window data)).2
    rw [length_window] at high
    have cut := nextBoundary_of_lt long
    rw [cut] at same ends ⊢
    have long' : minChunk < other.length := by omega
    have agree : (window other).take (scan 0 minChunk (window data) - minChunk) =
        (window data).take (scan 0 minChunk (window data) - minChunk) := by
      rw [take_window (by omega), take_window (by omega), same]
    rw [nextBoundary_of_lt long']
    apply scan_local agree
    rw [length_window, length_window]
    omega
  · have whole : nextBoundary data = data.length := by
      rw [nextBoundary, if_pos (Nat.not_lt.mp long)]
    have length : other.length = nextBoundary data := by omega
    rw [nextBoundary, if_pos (by omega), length]

/-- The same chunk of a file that begins `by'` bytes earlier. -/
def Chunk.shift (by' : Nat) (c : Chunk) : Chunk := { c with offset := by' + c.offset }

@[simp] theorem Chunk.shift_len (by' : Nat) (c : Chunk) : (c.shift by').len = c.len := rfl
@[simp] theorem Chunk.shift_offset (by' : Nat) (c : Chunk) : (c.shift by').offset = by' + c.offset := rfl
@[simp] theorem Chunk.shift_hash (by' : Nat) (c : Chunk) : (c.shift by').hash = c.hash := rfl

theorem Chunk.shift_zero : Chunk.shift 0 = id := by
  funext c
  rw [shift, Nat.zero_add]
  rfl

theorem Chunk.shift_shift (a b : Nat) : Chunk.shift a ∘ Chunk.shift b = Chunk.shift (a + b) := by
  funext c
  simp only [Function.comp_apply, shift, Nat.add_assoc]

/-- Induction along the cuts of a file. -/
@[elab_as_elim]
theorem cut_induction {P : Bytes → Prop} (data : Bytes) (nil : P [])
    (cut : ∀ data, data ≠ [] → P (data.drop (nextBoundary data)) → P data) : P data := by
  induction h : data.length using Nat.strong_induction_on generalizing data with
  | _ n ih =>
    by_cases empty : data = []
    · exact empty ▸ nil
    · have bounds := nextBoundary_bounds empty
      refine cut data empty (ih _ ?_ _ rfl)
      rw [List.length_drop]
      omega

section Split
variable {hash : Bytes → String}

theorem splitFrom_shift (fuel start by' : Nat) (data : Bytes) :
    splitFrom hash fuel (by' + start) data = (splitFrom hash fuel start data).map (Chunk.shift by') := by
  induction fuel generalizing start data with
  | zero => rfl
  | succ fuel ih =>
    cases data with
    | nil => rfl
    | cons b rest =>
      rw [splitFrom, splitFrom, List.map_cons, Nat.add_assoc, ih]
      rfl

theorem splitFrom_fuel {fuel start : Nat} {data : Bytes} (enough : data.length ≤ fuel) :
    splitFrom hash fuel start data = splitFrom hash data.length start data := by
  induction fuel using Nat.strong_induction_on generalizing start data with
  | _ fuel ih =>
    cases data with
    | nil =>
      cases fuel <;> rfl
    | cons b rest =>
      obtain ⟨fuel, rfl⟩ : ∃ more, fuel = more + 1 := ⟨fuel - 1, by rw [List.length_cons] at enough; omega⟩
      have bounds := nextBoundary_bounds (List.cons_ne_nil b rest)
      have shorter : ((b :: rest).drop (nextBoundary (b :: rest))).length ≤ rest.length := by
        rw [List.length_drop, List.length_cons]
        omega
      rw [List.length_cons] at enough ⊢
      rw [splitFrom, splitFrom, ih fuel (Nat.lt_succ_self _) (by omega)]
      by_cases full : fuel = rest.length
      · rw [← full, ih fuel (Nat.lt_succ_self _) (by omega)]
      · rw [ih rest.length (by omega) shorter]

@[simp] theorem split_nil : split hash [] = [] := rfl

/-- A file is its first chunk and the chunks of the rest. -/
theorem split_of_ne_nil {data : Bytes} (nonempty : data ≠ []) :
    split hash data = ⟨0, nextBoundary data, hash (data.take (nextBoundary data))⟩ ::
      (split hash (data.drop (nextBoundary data))).map (Chunk.shift (nextBoundary data)) := by
  cases data with
  | nil => exact absurd rfl nonempty
  | cons b rest =>
    have bounds := nextBoundary_bounds (List.cons_ne_nil b rest)
    have enough : ((b :: rest).drop (nextBoundary (b :: rest))).length ≤ rest.length := by
      rw [List.length_drop, List.length_cons]
      omega
    rw [split, List.length_cons, splitFrom, split, ← splitFrom_shift, Nat.add_zero, Nat.zero_add,
      splitFrom_fuel enough]

/-- Chunks that lie side by side and make up the file, of the allowed lengths. -/
structure Partition (hash : Bytes → String) (data : Bytes) (chunks : List Chunk) : Prop where
  contiguous : ∀ pre c post, chunks = pre ++ c :: post → c.offset = (pre.map Chunk.len).sum
  total : (chunks.map Chunk.len).sum = data.length
  named : ∀ c ∈ chunks, c.hash = hash (piece data c)
  least : ∀ pre c post, chunks = pre ++ c :: post → post ≠ [] → minChunk ≤ c.len
  most : ∀ c ∈ chunks, c.len ≤ maxChunk
  whole : chunks.flatMap (piece data) = data

private theorem map_len_shift (by' : Nat) (chunks : List Chunk) :
    (chunks.map (Chunk.shift by')).map Chunk.len = chunks.map Chunk.len := by
  rw [List.map_map]
  rfl

theorem split_total (data : Bytes) : ((split hash data).map Chunk.len).sum = data.length := by
  induction data using cut_induction with
  | nil => rfl
  | cut data nonempty ih =>
    have bounds := nextBoundary_bounds nonempty
    rw [split_of_ne_nil nonempty, List.map_cons, map_len_shift, List.sum_cons, ih, List.length_drop]
    exact Nat.add_sub_of_le bounds.2

theorem split_contiguous (data : Bytes) (pre : List Chunk) (c : Chunk) (post : List Chunk)
    (at' : split hash data = pre ++ c :: post) : c.offset = (pre.map Chunk.len).sum := by
  induction data using cut_induction generalizing pre c post with
  | nil => exact absurd at'.symm (List.append_ne_nil_of_right_ne_nil _ (List.cons_ne_nil _ _))
  | cut data nonempty ih =>
    rw [split_of_ne_nil nonempty] at at'
    cases pre with
    | nil =>
      obtain ⟨rfl, -⟩ := List.cons.inj at'
      rfl
    | cons first pre =>
      obtain ⟨rfl, rest⟩ := List.cons.inj at'
      obtain ⟨pre, later, inner, rfl, tail⟩ := List.map_eq_append_iff.mp rest
      obtain ⟨c, post, rfl, rfl, -⟩ := List.map_eq_cons_iff.mp tail
      rw [List.map_cons, List.sum_cons, map_len_shift, Chunk.shift_offset, ih _ _ _ inner]

theorem split_sizes (data : Bytes) (pre : List Chunk) (c : Chunk) (post : List Chunk)
    (at' : split hash data = pre ++ c :: post) :
    c.len ≤ maxChunk ∧ (post ≠ [] → minChunk ≤ c.len) := by
  induction data using cut_induction generalizing pre c post with
  | nil => exact absurd at'.symm (List.append_ne_nil_of_right_ne_nil _ (List.cons_ne_nil _ _))
  | cut data nonempty ih =>
    rw [split_of_ne_nil nonempty] at at'
    cases pre with
    | nil =>
      obtain ⟨rfl, rfl⟩ := List.cons.inj at'
      obtain ⟨most, least⟩ := nextBoundary_sizes data
      refine ⟨most, fun more => least ?_⟩
      by_contra last
      rw [List.drop_eq_nil_of_le (Nat.not_lt.mp last)] at more
      exact more rfl
    | cons first pre =>
      obtain ⟨-, rest⟩ := List.cons.inj at'
      obtain ⟨pre, later, inner, -, tail⟩ := List.map_eq_append_iff.mp rest
      obtain ⟨c, post, rfl, rfl, rfl⟩ := List.map_eq_cons_iff.mp tail
      obtain ⟨most, least⟩ := ih _ _ _ inner
      exact ⟨most, fun more => least fun none => more (congrArg _ none)⟩

theorem split_partition (data : Bytes) : Partition hash data (split hash data) where
  contiguous := split_contiguous data
  total := split_total data
  named := fun _ mem => (piece_of_mem_split mem).2.1.symm
  least := fun pre c post at' => (split_sizes data pre c post at').2
  most := by
    intro c mem
    obtain ⟨pre, post, at'⟩ := List.append_of_mem mem
    exact (split_sizes data pre c post at').1
  whole := flatMap_piece_split data

/-- Where a chunk ends, or the first one begins. -/
def Boundary (hash : Bytes → String) (data : Bytes) (p : Nat) : Prop :=
  p = 0 ∨ ∃ c ∈ split hash data, c.offset + c.len = p

/-- A file that ends where a chunk does, or goes on past it, has that chunk first. -/
theorem split_append {data other : Bytes} (nonempty : data ≠ [])
    (same : other.take (nextBoundary data) = data.take (nextBoundary data))
    (ends : nextBoundary data < data.length ∧ nextBoundary data ≤ other.length ∨
      other.length = nextBoundary data) :
    split hash other = ⟨0, nextBoundary data, hash (data.take (nextBoundary data))⟩ ::
      (split hash (other.drop (nextBoundary data))).map (Chunk.shift (nextBoundary data)) := by
  have bounds := nextBoundary_bounds nonempty
  have filled : other ≠ [] := by
    apply List.ne_nil_of_length_pos
    omega
  rw [split_of_ne_nil filled, nextBoundary_local same ends, same]

/-- Splitting can be taken up again at a boundary. -/
theorem split_at_boundary {data : Bytes} {p : Nat} (boundary : Boundary hash data p) :
    split hash data =
      split hash (data.take p) ++ (split hash (data.drop p)).map (Chunk.shift p) := by
  rcases boundary with rfl | ⟨c, mem, ends⟩
  · rw [List.take_zero, List.drop_zero, split_nil, List.nil_append, Chunk.shift_zero, List.map_id]
  · induction data using cut_induction generalizing p c with
    | nil => cases mem
    | cut data nonempty ih =>
      have bounds := nextBoundary_bounds nonempty
      rw [split_of_ne_nil nonempty] at mem ⊢
      rcases List.mem_cons.mp mem with rfl | later
      · obtain rfl : nextBoundary data = p := (Nat.zero_add _).symm.trans ends
        have length : (data.take (nextBoundary data)).length = nextBoundary data :=
          List.length_take_of_le bounds.2
        rw [split_append nonempty (List.take_of_length_le length.le) (.inr length),
          List.drop_eq_nil_of_le length.le, split_nil, List.map_nil, List.singleton_append]
      · obtain ⟨d, inner, rfl⟩ := List.mem_map.mp later
        obtain ⟨skip, offset, fits, -⟩ := mem_splitFrom inner
        rw [Chunk.shift_offset, Chunk.shift_len, Nat.add_assoc] at ends
        rw [List.length_drop] at fits
        have positive : nextBoundary data < data.length := by
          by_contra last
          rw [List.drop_eq_nil_of_le (Nat.not_lt.mp last)] at inner
          cases inner
        have before : (data.take p).take (nextBoundary data) = data.take (nextBoundary data) := by
          rw [List.take_take, min_eq_left (by omega)]
        have reach : nextBoundary data ≤ (data.take p).length := by
          rw [List.length_take]
          omega
        rw [ih d inner rfl, split_append nonempty before (.inl ⟨positive, reach⟩), List.cons_append,
          List.map_append, List.map_map, Chunk.shift_shift, List.drop_drop, ends, List.drop_take,
          show p - nextBoundary data = d.offset + d.len by omega]

/-- What follows a chunk does not change it, unless the file ended there. -/
theorem split_prefix (common rest rest' : Bytes) (c : Chunk) (mem : c ∈ split hash (common ++ rest))
    (before : c.offset + c.len ≤ common.length) (inside : c.offset + c.len < (common ++ rest).length) :
    c ∈ split hash (common ++ rest') := by
  generalize whole : common ++ rest = data at mem inside
  induction data using cut_induction generalizing common c with
  | nil => cases mem
  | cut data nonempty ih =>
    have bounds := nextBoundary_bounds nonempty
    rw [split_of_ne_nil nonempty] at mem
    have reach : nextBoundary data ≤ c.offset + c.len := by
      rcases List.mem_cons.mp mem with rfl | later
      · exact Nat.le_add_left _ _
      · obtain ⟨d, -, rfl⟩ := List.mem_map.mp later
        rw [Chunk.shift_offset]
        omega
    have common' : nextBoundary data ≤ common.length := reach.trans before
    have same : (common ++ rest').take (nextBoundary data) = data.take (nextBoundary data) := by
      have own := congrArg (List.take (nextBoundary data)) whole
      rw [List.take_append_of_le_length common'] at own
      rw [List.take_append_of_le_length common', own]
    have long : nextBoundary data ≤ (common ++ rest').length := by
      rw [List.length_append]
      omega
    rw [split_append nonempty same (.inl ⟨reach.trans_lt inside, long⟩)]
    rcases List.mem_cons.mp mem with rfl | later
    · exact List.mem_cons_self
    · obtain ⟨d, inner, rfl⟩ := List.mem_map.mp later
      rw [Chunk.shift_offset, Chunk.shift_len] at before inside
      apply List.mem_cons_of_mem
      rw [List.drop_append_of_le_length common']
      refine List.mem_map_of_mem (ih (common.drop (nextBoundary data)) d ?_ ?_ inner ?_)
      · rw [List.length_drop]
        omega
      · rw [← List.drop_append_of_le_length common', whole]
      · rw [List.length_drop]
        omega

end Split

/-- Splitting partitions every file, can be taken up again at every boundary, and keeps the
chunks before an edit. -/
theorem split_partition_local (hash : Bytes → String) :
    (∀ data, Partition hash data (split hash data)) ∧
    (∀ data p, Boundary hash data p → split hash data =
      split hash (data.take p) ++ (split hash (data.drop p)).map (Chunk.shift p)) ∧
    ∀ common rest rest' : Bytes, ∀ c ∈ split hash (common ++ rest),
      c.offset + c.len ≤ common.length → c.offset + c.len < (common ++ rest).length →
        c ∈ split hash (common ++ rest') :=
  ⟨split_partition, fun _ _ => split_at_boundary, split_prefix⟩

end PeerBeam.Sync
