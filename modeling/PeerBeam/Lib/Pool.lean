import PeerBeam.Lib.Program
import PeerBeam.Lib.Run

/-! Programs that share a state and take turns, one call at each turn. A pool keeps the calls made
so far with their answers; what a thread does next depends on its own calls alone. -/

structure Asked (C : Type) (R : C → Type) (ε : Type) where
  call : C
  answer : Except ε (R call)

/-- A pool of threads, with every call made so far and who made it. -/
structure Pool (σ ι C : Type) (R : C → Type) (ε α : Type) where
  state : σ
  threads : ι → Program C R ε α
  history : List (ι × Asked C R ε)

structure Turn (ι ε : Type) where
  thread : ι
  failure : Option ε

namespace Pool
variable {σ ι C : Type} {R : C → Type} {ε α : Type} [DecidableEq ι]

def start (s : σ) (threads : ι → Program C R ε α) : Pool σ ι C R ε α := ⟨s, threads, []⟩

section
variable (exec : σ → (c : C) → Except ε (R c) × σ)

/-- The answer of a call, and the state it leaves. -/
def reply (s : σ) (failure : Option ε) (c : C) : Except ε (R c) × σ :=
  match failure with
  | none => exec s c
  | some e => (.error e, s)

def step (w : Pool σ ι C R ε α) (t : Turn ι ε) : Pool σ ι C R ε α :=
  match w.threads t.thread with
  | .call c next =>
    { state := (reply exec w.state t.failure c).2
      threads := Function.update w.threads t.thread (next (reply exec w.state t.failure c).1)
      history := w.history ++ [(t.thread, ⟨c, (reply exec w.state t.failure c).1⟩)] }
  | _ => w

def run (w : Pool σ ι C R ε α) (turns : List (Turn ι ε)) : Pool σ ι C R ε α :=
  turns.foldl (step exec) w

end

variable {exec : σ → (c : C) → Except ε (R c) × σ} {w : Pool σ ι C R ε α}

def next (w : Pool σ ι C R ε α) (i : ι) : Option C :=
  match w.threads i with
  | .call c _ => some c
  | _ => none

def own (w : Pool σ ι C R ε α) (i : ι) : List (Asked C R ε) :=
  (w.history.filter (·.1 = i)).map Prod.snd

omit [DecidableEq ι] in
theorem next_eq_some {i : ι} {c : C} :
    w.next i = some c ↔ ∃ rest, w.threads i = .call c rest := by
  rw [Pool.next]
  constructor
  · intro turn
    split at turn
    next here => cases turn; exact ⟨_, here⟩
    next => cases turn
  · rintro ⟨rest, here⟩
    rw [here]

/-- A turn is a call of its thread or changes nothing. -/
theorem step_cases (exec : σ → (c : C) → Except ε (R c) × σ) (w : Pool σ ι C R ε α) (t : Turn ι ε) :
    (∃ c next, w.threads t.thread = .call c next ∧ step exec w t =
      ⟨(reply exec w.state t.failure c).2,
        Function.update w.threads t.thread (next (reply exec w.state t.failure c).1),
        w.history ++ [(t.thread, ⟨c, (reply exec w.state t.failure c).1⟩)]⟩) ∨
    ((∃ out, (w.threads t.thread).outcome = some out) ∧ step exec w t = w) := by
  rw [step]
  cases w.threads t.thread with
  | ret a => exact .inr ⟨⟨_, rfl⟩, rfl⟩
  | fail e => exact .inr ⟨⟨_, rfl⟩, rfl⟩
  | call c next => exact .inl ⟨c, next, rfl, rfl⟩

@[simp]
theorem own_start (s : σ) (threads : ι → Program C R ε α) (i : ι) : (start s threads).own i = [] := rfl

theorem own_push (w : Pool σ ι C R ε α) (s : σ) (threads : ι → Program C R ε α) (j i : ι)
    (a : Asked C R ε) :
    (⟨s, threads, w.history ++ [(j, a)]⟩ : Pool σ ι C R ε α).own i =
      w.own i ++ if j = i then [a] else [] := by
  rw [own, own, List.filter_append, List.map_append]
  by_cases same : j = i
  · simp [same]
  · simp [same]

/-- A program on its own, which hears of its calls what is allowed after those it has made. -/
def Hears (allowed : List (Asked C R ε) → (c : C) → Except ε (R c) → Prop)
    (asked : List (Asked C R ε)) (c : C) (r : Except ε (R c)) (asked' : List (Asked C R ε)) : Prop :=
  allowed asked c r ∧ asked' = asked ++ [⟨c, r⟩]

section
variable (allowed : ι → List (Asked C R ε) → (c : C) → Except ε (R c) → Prop)
  (must : ι → List (Asked C R ε) → C → Prop) (done : ι → α → List (Asked C R ε) → Prop)
  (failed : ι → ε → List (Asked C R ε) → Prop)

/-- Every thread guarantees, after the calls it has made, what it guaranteed at first. -/
def Keeps (w : Pool σ ι C R ε α) : Prop :=
  ∀ i, (w.threads i).wp (Hears (allowed i)) (must i) (done i) (failed i) (w.own i)

variable {allowed must done failed}

/-- What a thread guarantees of itself it guarantees in company, if it hears what is allowed. -/
theorem Keeps.step (h : Keeps allowed must done failed w) (t : Turn ι ε)
    (fits : ∀ c, w.next t.thread = some c →
      allowed t.thread (w.own t.thread) c (reply exec w.state t.failure c).1) :
    Keeps allowed must done failed (step exec w t) := by
  rcases step_cases exec w t with ⟨c, next, turn, after⟩ | ⟨_, after⟩
  · intro i
    rw [after, own_push]
    show (Function.update w.threads t.thread _ i).wp _ _ _ _ _
    by_cases same : t.thread = i
    · subst same
      have here := h t.thread
      rw [turn] at here
      rw [Function.update_self, if_pos rfl]
      refine here.2 _ _ ⟨fits c ?_, rfl⟩
      rw [Pool.next, turn]
    · rw [Function.update_of_ne (Ne.symm same), if_neg same, List.append_nil]
      exact h i
  · rw [after]
    exact h

theorem Keeps.call (h : Keeps allowed must done failed w) {i : ι} {c : C}
    {next : Except ε (R c) → Program C R ε α} (turn : w.threads i = .call c next) :
    must i (w.own i) c := by
  have here := h i
  rw [turn] at here
  exact here.1

theorem Keeps.next (h : Keeps allowed must done failed w) {i : ι} {c : C} (turn : w.next i = some c) :
    must i (w.own i) c := by
  obtain ⟨rest, here⟩ := next_eq_some.mp turn
  exact h.call here

theorem Keeps.ret (h : Keeps allowed must done failed w) {i : ι} {a : α}
    (ended : w.threads i = .ret a) : done i a (w.own i) := by
  have here := h i
  rw [ended] at here
  exact here

end

/-- What a thread has called on is what it had, or with the call it makes in the turn. -/
theorem own_step (exec : σ → (c : C) → Except ε (R c) × σ) (w : Pool σ ι C R ε α) (t : Turn ι ε) (i : ι) :
    (step exec w t).own i = w.own i ∨ t.thread = i ∧ ∃ c, w.next i = some c ∧
      (step exec w t).own i = w.own i ++ [⟨c, (reply exec w.state t.failure c).1⟩] ∧
      (step exec w t).state = (reply exec w.state t.failure c).2 := by
  rcases step_cases exec w t with ⟨c, next, turn, after⟩ | ⟨_, after⟩
  · rw [after, own_push]
    by_cases same : t.thread = i
    · subst same
      exact .inr ⟨rfl, c, by rw [Pool.next, turn], by rw [if_pos rfl], rfl⟩
    · exact .inl (by rw [if_neg same, List.append_nil])
  · rw [after]
    exact .inl rfl

def Made (must : ι → List (Asked C R ε) → C → Prop) (w : Pool σ ι C R ε α) : Prop :=
  ∀ i pre a post, w.own i = pre ++ a :: post → must i pre a.call

theorem Made.step {must : ι → List (Asked C R ε) → C → Prop} (h : Made must w) (t : Turn ι ε)
    (fits : ∀ c, w.next t.thread = some c → must t.thread (w.own t.thread) c) :
    Made must (step exec w t) := by
  intro i pre a post split
  rcases own_step exec w t i with same | ⟨rfl, c, turn, more, -⟩
  · rw [same] at split
    exact h i pre a post split
  · rw [more] at split
    rcases List.eq_nil_or_concat post with rfl | ⟨post, last, rfl⟩
    · obtain ⟨rfl, same⟩ := List.append_inj' split rfl
      cases same
      exact fits c turn
    · rw [List.concat_eq_append, ← List.cons_append, ← List.append_assoc] at split
      exact h t.thread pre a post (List.append_inj' split rfl).1

/-- A thread that ends in a turn has made its last call in it. -/
theorem ended_turn {i : ι} {a : α} {t : Turn ι ε} (going : w.threads i ≠ .ret a)
    (ended : (step exec w t).threads i = .ret a) :
    t.thread = i ∧ ∃ c, w.next i = some c ∧
      (step exec w t).own i = w.own i ++ [⟨c, (reply exec w.state t.failure c).1⟩] ∧
      (step exec w t).state = (reply exec w.state t.failure c).2 := by
  rcases step_cases exec w t with ⟨c, next, turn, after⟩ | ⟨_, after⟩
  · by_cases same : t.thread = i
    · subst same
      refine ⟨rfl, c, by rw [Pool.next, turn], ?_, by rw [after]⟩
      rw [after, own_push, if_pos rfl]
    · rw [after] at ended
      refine absurd ?_ going
      rw [← ended]
      exact (Function.update_of_ne (Ne.symm same) ..).symm
  · rw [after] at ended
    exact absurd ended going

/-- A thread that has ended stays so. -/
theorem ended_step {i : ι} {a : α} (ended : w.threads i = .ret a) (t : Turn ι ε) :
    (step exec w t).threads i = .ret a := by
  rcases step_cases exec w t with ⟨c, next, turn, after⟩ | ⟨_, after⟩
  · rw [after]
    refine (Function.update_of_ne (fun same => ?_) ..).trans ended
    subst same
    cases ended.symm.trans turn
  · rw [after]
    exact ended

/-- A thread that has made no call is as it was at first. -/
theorem untouched {s : σ} {threads : ι → Program C R ε α} {i : ι} {turns : List (Turn ι ε)}
    (silent : ((start s threads).run exec turns).own i = []) :
    ((start s threads).run exec turns).threads i = threads i := by
  refine TransitionRun.invariant (I := fun w : Pool σ ι C R ε α => w.own i = [] → w.threads i = threads i)
    (fun _ => rfl) (fun w t before after => ?_) turns silent
  rcases step_cases exec w t with ⟨c, next, turn, step⟩ | ⟨_, step⟩
  · rw [step, own_push] at after
    rw [step]
    obtain ⟨silent, other⟩ := List.append_eq_nil_iff.mp after
    refine (Function.update_of_ne (fun same => ?_) ..).trans (before silent)
    rw [if_pos same.symm] at other
    cases other
  · rw [step] at after ⊢
    exact before after

/-- The one thread has made a call after the other's last. -/
def After (w : Pool σ ι C R ε α) (i j : ι) : Prop :=
  ∃ pre post, w.history = pre ++ post ∧ (∀ e ∈ post, e.1 ≠ i) ∧ ∃ e ∈ post, e.1 = j

theorem After.push {i j : ι} (h : w.After i j) (ended : ∀ c next, w.threads i ≠ .call c next)
    (t : Turn ι ε) : (step exec w t).After i j := by
  rcases step_cases exec w t with ⟨c, next, turn, after⟩ | ⟨_, after⟩
  · obtain ⟨pre, post, split, away, e, mem, own⟩ := h
    rw [after]
    refine ⟨pre, post ++ [(t.thread, ⟨c, (reply exec w.state t.failure c).1⟩)], ?_, fun e mem => ?_, e,
      List.mem_append_left _ mem, own⟩
    · rw [← List.append_assoc, ← split]
    · rcases List.mem_append.mp mem with mem | mem
      · exact away e mem
      · rw [List.mem_singleton.mp mem]
        intro same
        exact ended c next (same ▸ turn)
  · rw [after]
    exact h

/-- Whoever takes a turn does so after a thread that has ended. -/
theorem after_turn {i : ι} (ended : ∀ c next, w.threads i ≠ .call c next) {t : Turn ι ε} {c : C}
    (turn : w.next t.thread = some c) : (step exec w t).After i t.thread := by
  rw [step]
  rw [Pool.next] at turn
  cases here : w.threads t.thread with
  | ret a => rw [here] at turn; cases turn
  | fail e => rw [here] at turn; cases turn
  | call c next =>
    refine ⟨w.history, [(t.thread, ⟨c, (reply exec w.state t.failure c).1⟩)], rfl, fun e mem => ?_, _,
      List.mem_cons_self, rfl⟩
    rw [List.mem_singleton.mp mem]
    intro same
    exact ended c next (same ▸ here)

/-- A call of the kind has been made by another after the thread's last. -/
def Followed (w : Pool σ ι C R ε α) (i : ι) (Q : ι × Asked C R ε → Prop) : Prop :=
  ∃ pre e post, w.history = pre ++ e :: post ∧ Q e ∧ e.1 ≠ i ∧ ∀ x ∈ post, x.1 ≠ i

/-- A call of the kind has been made after the thread's first. -/
def Joined (w : Pool σ ι C R ε α) (i : ι) (Q : ι × Asked C R ε → Prop) : Prop :=
  ∃ pre e post, w.history = pre ++ e :: post ∧ Q e ∧ ∃ x ∈ pre, x.1 = i

/-- A call of the kind has been made by another after the one thread's last and before the other's. -/
def Parted (w : Pool σ ι C R ε α) (i j : ι) (Q : ι × Asked C R ε → Prop) : Prop :=
  ∃ pre e post, w.history = pre ++ e :: post ∧ Q e ∧ e.1 ≠ i ∧ (∀ x ∈ post, x.1 ≠ i) ∧
    ∃ x ∈ post, x.1 = j

/-- What a turn adds to the calls made so far. -/
theorem history_step (exec : σ → (c : C) → Except ε (R c) × σ) (w : Pool σ ι C R ε α) (t : Turn ι ε) :
    ∃ more, (step exec w t).history = w.history ++ more ∧
      ∀ x ∈ more, x.1 = t.thread ∧ ∃ c next, w.threads t.thread = .call c next := by
  rcases step_cases exec w t with ⟨c, next, turn, after⟩ | ⟨_, after⟩
  · rw [after]
    refine ⟨_, rfl, fun x mem => ?_⟩
    rw [List.mem_singleton.mp mem]
    exact ⟨rfl, c, next, turn⟩
  · exact ⟨[], by rw [after, List.append_nil], fun _ mem => absurd mem List.not_mem_nil⟩

section
variable {i j : ι} {Q : ι × Asked C R ε → Prop}

/-- A thread that makes no call makes none in a turn either. -/
theorem idle_step (exec : σ → (c : C) → Except ε (R c) × σ) (idle : ∀ c next, w.threads i ≠ .call c next)
    (t : Turn ι ε) :
    ∃ more, (step exec w t).history = w.history ++ more ∧ ∀ x ∈ more, x.1 ≠ i := by
  obtain ⟨more, history, made⟩ := history_step exec w t
  refine ⟨more, history, fun x mem same => ?_⟩
  obtain ⟨own, c, next, turn⟩ := made x mem
  exact idle c next (same.symm.trans own ▸ turn)

theorem Followed.push (h : w.Followed i Q) (idle : ∀ c next, w.threads i ≠ .call c next)
    (t : Turn ι ε) : (step exec w t).Followed i Q := by
  obtain ⟨pre, e, post, split, made, other, away⟩ := h
  obtain ⟨more, history, away'⟩ := idle_step exec idle t
  refine ⟨pre, e, post ++ more, ?_, made, other, fun x mem => ?_⟩
  · rw [history, split, List.append_assoc, List.cons_append]
  · exact (List.mem_append.mp mem).elim (away x) (away' x)

theorem Joined.push (h : w.Joined i Q) (t : Turn ι ε) : (step exec w t).Joined i Q := by
  obtain ⟨pre, e, post, split, made, begun⟩ := h
  obtain ⟨more, history, -⟩ := history_step exec w t
  refine ⟨pre, e, post ++ more, ?_, made, begun⟩
  rw [history, split, List.append_assoc, List.cons_append]

theorem Parted.push (h : w.Parted i j Q) (idle : ∀ c next, w.threads i ≠ .call c next)
    (t : Turn ι ε) : (step exec w t).Parted i j Q := by
  obtain ⟨pre, e, post, split, made, other, away, x, mem, own⟩ := h
  obtain ⟨more, history, away'⟩ := idle_step exec idle t
  refine ⟨pre, e, post ++ more, ?_, made, other, fun x mem => ?_, x, List.mem_append_left _ mem, own⟩
  · rw [history, split, List.append_assoc, List.cons_append]
  · exact (List.mem_append.mp mem).elim (away x) (away' x)

theorem history_turn {t : Turn ι ε} {c : C} (turn : w.next t.thread = some c) :
    (step exec w t).history =
      w.history ++ [(t.thread, ⟨c, (reply exec w.state t.failure c).1⟩)] := by
  obtain ⟨next, here⟩ := next_eq_some.mp turn
  rcases step_cases exec w t with ⟨c', next', turn', after⟩ | ⟨⟨out, ended⟩, -⟩
  · cases here.symm.trans turn'
    rw [after]
  · rw [here] at ended
    cases ended

omit [DecidableEq ι] in
theorem idle_other (idle : ∀ c next, w.threads i ≠ .call c next) {j : ι} {c : C}
    (turn : w.next j = some c) : j ≠ i := by
  rintro rfl
  obtain ⟨next, here⟩ := next_eq_some.mp turn
  exact idle c next here

/-- A call made by another in its turn. -/
theorem followed_turn (idle : ∀ c next, w.threads i ≠ .call c next) {t : Turn ι ε} {c : C}
    (turn : w.next t.thread = some c) (made : Q (t.thread, ⟨c, (reply exec w.state t.failure c).1⟩)) :
    (step exec w t).Followed i Q :=
  ⟨w.history, _, [], history_turn turn, made, idle_other idle turn,
    fun _ mem => absurd mem List.not_mem_nil⟩

theorem joined_turn (begun : w.own i ≠ []) {t : Turn ι ε} {c : C} (turn : w.next t.thread = some c)
    (made : Q (t.thread, ⟨c, (reply exec w.state t.failure c).1⟩)) : (step exec w t).Joined i Q := by
  obtain ⟨a, mem⟩ := List.exists_mem_of_ne_nil _ begun
  obtain ⟨x, mem, -⟩ := List.mem_map.mp mem
  obtain ⟨mem, own⟩ := List.mem_filter.mp mem
  exact ⟨w.history, _, [], history_turn turn, made, x, mem, of_decide_eq_true own⟩

/-- The other's turn parts the two. -/
theorem Followed.part (h : w.Followed i Q) (idle : ∀ c next, w.threads i ≠ .call c next) {t : Turn ι ε}
    {c : C} (turn : w.next t.thread = some c) : (step exec w t).Parted i t.thread Q := by
  obtain ⟨pre, e, post, split, made, other, away⟩ := h
  refine ⟨pre, e, post ++ [(t.thread, ⟨c, (reply exec w.state t.failure c).1⟩)], ?_, made, other,
    fun x mem => ?_, _, List.mem_append_right _ List.mem_cons_self, rfl⟩
  · rw [history_turn turn, split, List.append_assoc, List.cons_append]
  · rcases List.mem_append.mp mem with mem | mem
    · exact away x mem
    · rw [List.mem_singleton.mp mem]
      exact idle_other idle turn

end

end Pool
