import Mathlib.Logic.Function.Basic

/-! Programs that call on a state they share with others. A program goes on with the answer of each
call; a call may fail, and a program that does not look at a failure ends in it. -/

inductive Program (C : Type) (R : C → Type) (ε α : Type) where
  | ret (a : α)
  | fail (e : ε)
  | call (c : C) (next : Except ε (R c) → Program C R ε α)

namespace Program
variable {C : Type} {R : C → Type} {ε α β γ σ : Type}

def bind : Program C R ε α → (α → Program C R ε β) → Program C R ε β
  | ret a, f => f a
  | fail e, _ => fail e
  | call c next, f => call c fun r => (next r).bind f

instance : Monad (Program C R ε) where
  pure := ret
  bind := bind

def ask (c : C) : Program C R ε (R c) :=
  call c fun
    | .ok a => ret a
    | .error e => fail e

def attempt : Program C R ε α → Program C R ε (Except ε α)
  | ret a => ret (.ok a)
  | fail e => ret (.error e)
  | call c next => call c fun r => (next r).attempt

def outcome : Program C R ε α → Option (Except ε α)
  | ret a => some (.ok a)
  | fail e => some (.error e)
  | call _ _ => none

@[simp]
theorem pure_eq (a : α) : (pure a : Program C R ε α) = ret a := rfl

@[simp]
theorem ret_bind (a : α) (f : α → Program C R ε β) : ret a >>= f = f a := rfl

@[simp]
theorem fail_bind (e : ε) (f : α → Program C R ε β) : fail e >>= f = fail e := rfl

@[simp]
theorem call_bind (c : C) (next : Except ε (R c) → Program C R ε α) (f : α → Program C R ε β) :
    call c next >>= f = call c fun r => next r >>= f := rfl

theorem bind_ret (p : Program C R ε α) : p >>= ret = p := by
  induction p with
  | ret a => rfl
  | fail e => rfl
  | call c next ih => exact congrArg (call c) (funext ih)

theorem bind_assoc (p : Program C R ε α) (f : α → Program C R ε β) (g : β → Program C R ε γ) :
    p >>= f >>= g = p >>= fun a => f a >>= g := by
  induction p with
  | ret a => rfl
  | fail e => rfl
  | call c next ih => exact congrArg (call c) (funext ih)

instance : LawfulMonad (Program C R ε) := LawfulMonad.mk' _ bind_ret (fun _ _ => rfl) bind_assoc

section
variable (answer : σ → (c : C) → Except ε (R c) → σ → Prop) (must : σ → C → Prop)

/-- Whatever its calls answer, the program makes each where it must, and it ends in a state that
satisfies the one or the other condition. -/
def wp : Program C R ε α → (α → σ → Prop) → (ε → σ → Prop) → σ → Prop
  | ret a, done, _, s => done a s
  | fail e, _, failed, s => failed e s
  | call c next, done, failed, s =>
    must s c ∧ ∀ r s', answer s c r s' → (next r).wp done failed s'

variable {answer must} {done : α → σ → Prop} {failed : ε → σ → Prop} {s : σ}

@[simp]
theorem wp_ret {a : α} : (ret a : Program C R ε α).wp answer must done failed s ↔ done a s := Iff.rfl

@[simp]
theorem wp_fail {e : ε} : (fail e : Program C R ε α).wp answer must done failed s ↔ failed e s :=
  Iff.rfl

theorem wp_call {c : C} {next : Except ε (R c) → Program C R ε α} :
    (call c next).wp answer must done failed s ↔
      must s c ∧ ∀ r s', answer s c r s' → (next r).wp answer must done failed s' := Iff.rfl

theorem wp_bind {p : Program C R ε α} {f : α → Program C R ε β} {done : β → σ → Prop} :
    (p >>= f).wp answer must done failed s ↔
      p.wp answer must (fun a s' => (f a).wp answer must done failed s') failed s := by
  induction p generalizing s with
  | ret a => exact Iff.rfl
  | fail e => exact Iff.rfl
  | call c next ih =>
    exact and_congr_right fun _ => forall_congr' fun r => forall_congr' fun s' =>
      imp_congr_right fun _ => ih r

theorem wp_ask {c : C} {done : R c → σ → Prop} :
    (ask c).wp answer must done failed s ↔
      must s c ∧ (∀ a s', answer s c (.ok a) s' → done a s') ∧
        ∀ e s', answer s c (.error e) s' → failed e s' := by
  refine and_congr_right fun _ => ⟨fun h => ⟨fun a => h (.ok a), fun e => h (.error e)⟩, ?_⟩
  rintro ⟨ok, error⟩ (e | a)
  · exact error e
  · exact ok a

theorem wp_attempt {p : Program C R ε α} {done : Except ε α → σ → Prop} :
    p.attempt.wp answer must done failed s ↔
      p.wp answer must (fun a => done (.ok a)) (fun e => done (.error e)) s := by
  induction p generalizing s with
  | ret a => exact Iff.rfl
  | fail e => exact Iff.rfl
  | call c next ih =>
    exact and_congr_right fun _ => forall_congr' fun r => forall_congr' fun s' =>
      imp_congr_right fun _ => ih r

theorem wp_mono {p : Program C R ε α} {done' : α → σ → Prop} {failed' : ε → σ → Prop}
    (h : p.wp answer must done failed s) (onDone : ∀ a s, done a s → done' a s)
    (onFailed : ∀ e s, failed e s → failed' e s) : p.wp answer must done' failed' s := by
  induction p generalizing s with
  | ret a => exact onDone a s h
  | fail e => exact onFailed e s h
  | call c next ih => exact ⟨h.1, fun r s' said => ih r (h.2 r s' said)⟩

end

section
variable {allowed : C → Prop}

def Only (allowed : C → Prop) : Program C R ε α → Prop
  | ret _ => True
  | fail _ => True
  | call c next => allowed c ∧ ∀ r, (next r).Only allowed

theorem only_ask {c : C} (h : allowed c) : (ask c : Program C R ε _).Only allowed := by
  refine ⟨h, fun r => ?_⟩
  cases r <;> trivial

theorem Only.bind {p : Program C R ε α} {f : α → Program C R ε β} (h : p.Only allowed)
    (later : ∀ a, (f a).Only allowed) : (p >>= f).Only allowed := by
  induction p with
  | ret a => exact later a
  | fail e => trivial
  | call c next ih => exact ⟨h.1, fun r => ih r (h.2 r)⟩

theorem Only.attempt {p : Program C R ε α} (h : p.Only allowed) : p.attempt.Only allowed := by
  induction p with
  | ret a => trivial
  | fail e => trivial
  | call c next ih => exact ⟨h.1, fun r => ih r (h.2 r)⟩

/-- What every allowed call keeps the program keeps. -/
theorem Only.wp {answer : σ → (c : C) → Except ε (R c) → σ → Prop} {must : σ → C → Prop}
    {I : σ → Prop} {p : Program C R ε α} (h : p.Only allowed)
    (makes : ∀ s c, allowed c → I s → must s c)
    (kept : ∀ s c r s', allowed c → I s → answer s c r s' → I s') {s : σ} (inv : I s) :
    p.wp answer must (fun _ => I) (fun _ => I) s := by
  induction p generalizing s with
  | ret a => exact inv
  | fail e => exact inv
  | call c next ih =>
    exact ⟨makes s c h.1 inv, fun r s' said => ih r (h.2 r) (kept s c r s' h.1 inv said)⟩

end

section
variable (answer : σ → (c : C) → Except ε (R c) → σ → Prop)

inductive Runs : Program C R ε α → σ → Except ε α → σ → Prop
  | ret (a : α) (s : σ) : Runs (ret a) s (.ok a) s
  | fail (e : ε) (s : σ) : Runs (fail e) s (.error e) s
  | call {c : C} {next : Except ε (R c) → Program C R ε α} {s s' s'' : σ} {r : Except ε (R c)}
      {out : Except ε α} (said : answer s c r s') (rest : Runs (next r) s' out s'') :
      Runs (call c next) s out s''

variable {answer}

theorem Runs.of_wp {must : σ → C → Prop} {p : Program C R ε α} {s s' : σ} {out : Except ε α}
    (run : Runs answer p s out s') (post : Except ε α → σ → Prop)
    (h : p.wp answer must (fun a => post (.ok a)) (fun e => post (.error e)) s) : post out s' := by
  induction run with
  | ret a s => exact h
  | fail e s => exact h
  | call said rest ih => exact ih (h.2 _ _ said)

end

section
variable (answer : σ → (c : C) → Except ε (R c) → σ → Prop) (I : σ → Prop)

/-- From a state of the invariant the program ends in one, and if it succeeds with what is promised. -/
def Maintains (p : Program C R ε α) (post : α → Prop) : Prop :=
  ∀ s, I s → p.wp answer (fun _ _ => True) (fun a s' => I s' ∧ post a) (fun _ s' => I s') s

namespace Maintains
variable {answer I} {p : Program C R ε α} {post : α → Prop}

theorem ret {a : α} (h : post a) : Maintains answer I (ret a) post := fun _ inv => ⟨inv, h⟩

theorem fail {e : ε} : Maintains answer I (fail e) post := fun _ inv => inv

theorem mono (h : Maintains answer I p post) {post' : α → Prop} (weaker : ∀ a, post a → post' a) :
    Maintains answer I p post' :=
  fun s inv => wp_mono (h s inv) (fun a _ kept => ⟨kept.1, weaker a kept.2⟩) fun _ _ kept => kept

theorem bind {f : α → Program C R ε β} {post' : β → Prop} (h : Maintains answer I p post)
    (later : ∀ a, post a → Maintains answer I (f a) post') : Maintains answer I (p >>= f) post' := by
  intro s inv
  rw [wp_bind]
  exact wp_mono (h s inv) (fun a s' kept => later a kept.2 s' kept.1) fun _ _ kept => kept

theorem attempt (h : Maintains answer I p post) :
    Maintains answer I p.attempt fun r => ∀ a, r = .ok a → post a := by
  intro s inv
  rw [wp_attempt]
  refine wp_mono (h s inv) (fun a s' kept => ⟨kept.1, ?_⟩) fun e s' kept => ⟨kept, ?_⟩
  · rintro _ ⟨⟩
    exact kept.2
  · rintro _ ⟨⟩

theorem called {c : C} {post : R c → Prop}
    (h : ∀ s r s', I s → answer s c r s' → I s' ∧ ∀ a, r = .ok a → post a) :
    Maintains answer I (Program.ask c) post := by
  intro s inv
  rw [wp_ask]
  refine ⟨trivial, fun a s' said => ?_, fun e s' said => (h s _ s' inv said).1⟩
  obtain ⟨kept, ok⟩ := h s _ s' inv said
  exact ⟨kept, ok a rfl⟩

theorem of_runs (h : Maintains answer I p post) {s s' : σ} {out : Except ε α} (inv : I s)
    (run : Runs answer p s out s') : I s' ∧ ∀ a, out = .ok a → post a := by
  have ended := wp_mono (h s inv)
    (fun a s' kept => (⟨kept.1, fun b same => Except.ok.inj same ▸ kept.2⟩ :
      I s' ∧ ∀ b, (.ok a : Except ε α) = .ok b → post b))
    fun e s' kept => (⟨kept, fun b same => nomatch same⟩ :
      I s' ∧ ∀ b, (.error e : Except ε α) = .ok b → post b)
  exact run.of_wp (fun out s' => I s' ∧ ∀ a, out = .ok a → post a) ended

end Maintains

end

section
variable (exec : σ → (c : C) → Except ε (R c) × σ)

/-- The program run on its own, where no call fails but as `exec` says. -/
def run : Program C R ε α → σ → Except ε α × σ
  | ret a, s => (.ok a, s)
  | fail e, s => (.error e, s)
  | call c next, s => (next (exec s c).1).run (exec s c).2

/-- What a call may answer: as it is carried out, or a failure that leaves everything as it was. -/
def Answers (s : σ) (c : C) (r : Except ε (R c)) (s' : σ) : Prop :=
  exec s c = (r, s') ∨ (∃ e, r = .error e) ∧ s' = s

variable {exec}

theorem Maintains.carried {I : σ → Prop} {c : C} {post : R c → Prop}
    (kept : ∀ s, I s → I (exec s c).2) (ok : ∀ s a, I s → (exec s c).1 = .ok a → post a) :
    Maintains (Answers exec) I (ask c) post := by
  refine .called fun s r s' inv said => ?_
  rcases said with carried | ⟨⟨e, failed⟩, same⟩
  · obtain ⟨rfl, rfl⟩ := Prod.ext_iff.mp carried
    exact ⟨kept s inv, fun a answered => ok s a inv answered⟩
  · subst same
    exact ⟨inv, fun a answered => by rw [failed] at answered; cases answered⟩

@[simp]
theorem run_ret (a : α) (s : σ) : (ret a : Program C R ε α).run exec s = (.ok a, s) := rfl

@[simp]
theorem run_fail (e : ε) (s : σ) : (fail e : Program C R ε α).run exec s = (.error e, s) := rfl

theorem run_bind (p : Program C R ε α) (f : α → Program C R ε β) (s : σ) :
    (p >>= f).run exec s =
      match p.run exec s with
      | (.ok a, s') => (f a).run exec s'
      | (.error e, s') => (.error e, s') := by
  induction p generalizing s with
  | ret a => rfl
  | fail e => rfl
  | call c next ih => exact ih _ _

theorem run_ask (c : C) (s : σ) : (ask c).run exec s = exec s c := by
  show (match (exec s c).1 with | .ok a => ret a | .error e => fail e : Program C R ε _).run exec _ = _
  rcases exec s c with ⟨_ | _, _⟩ <;> rfl

theorem run_attempt (p : Program C R ε α) (s : σ) :
    p.attempt.run exec s = (.ok (p.run exec s).1, (p.run exec s).2) := by
  induction p generalizing s with
  | ret a => rfl
  | fail e => rfl
  | call c next ih => exact ih _ _

variable (exec) in
def Does (s : σ) (c : C) (r : Except ε (R c)) (s' : σ) : Prop := exec s c = (r, s')

variable (exec) in
def cut : Nat → Program C R ε α → σ → σ
  | n + 1, call c next, s => (next (exec s c).1).cut n (exec s c).2
  | _, _, s => s

theorem run_of_wp {must : σ → C → Prop} {p : Program C R ε α} {s : σ} (post : Except ε α → σ → Prop)
    (h : p.wp (Does exec) must (fun a => post (.ok a)) (fun e => post (.error e)) s) :
    post (p.run exec s).1 (p.run exec s).2 := by
  induction p generalizing s with
  | ret a => exact h
  | fail e => exact h
  | call c next ih => exact ih _ (h.2 _ _ rfl)

/-- What each call leaves is what is left wherever the program is cut off. -/
theorem cut_of_wp {I : σ → Prop} {p : Program C R ε α} {done : α → σ → Prop} {failed : ε → σ → Prop}
    {s : σ} (h : p.wp (Does exec) (fun s c => I (exec s c).2) done failed s) (inv : I s) (n : Nat) :
    I (p.cut exec n s) := by
  induction p generalizing s n with
  | ret a => cases n <;> exact inv
  | fail e => cases n <;> exact inv
  | call c next ih =>
    cases n with
    | zero => exact inv
    | succ n => exact ih _ (h.2 _ _ rfl) h.1 n

theorem cut_invariant {I : σ → Prop} (kept : ∀ s c, I s → I (exec s c).2) (p : Program C R ε α) {s : σ}
    (inv : I s) (n : Nat) : I (p.cut exec n s) := by
  induction p generalizing s n with
  | ret a => cases n <;> exact inv
  | fail e => cases n <;> exact inv
  | call c next ih =>
    cases n with
    | zero => exact inv
    | succ n => exact ih _ (kept s c inv) n

theorem runs_run (p : Program C R ε α) (s : σ) :
    Runs (Answers exec) p s (p.run exec s).1 (p.run exec s).2 := by
  induction p generalizing s with
  | ret a => exact .ret a s
  | fail e => exact .fail e s
  | call c next ih => exact .call (.inl rfl) (ih _ _)

end

section
variable {D : Type} {S : D → Type}

def among : Program C R ε α → Program (C ⊕ D) (Sum.elim R S) ε α
  | ret a => ret a
  | fail e => fail e
  | call c next => call (.inl c) fun r => (next r).among

theorem wp_among {answer : σ → (c : C ⊕ D) → Except ε (Sum.elim R S c) → σ → Prop} {must : σ → C ⊕ D → Prop}
    {p : Program C R ε α} {done : α → σ → Prop} {failed : ε → σ → Prop} {s : σ} :
    (p.among (S := S)).wp answer must done failed s ↔
      p.wp (fun s c r s' => answer s (.inl c) r s') (fun s c => must s (.inl c)) done failed s := by
  induction p generalizing s with
  | ret a => exact Iff.rfl
  | fail e => exact Iff.rfl
  | call c next ih =>
    exact and_congr_right fun _ => forall_congr' fun r => forall_congr' fun s' =>
      imp_congr_right fun _ => ih r

end

end Program
