import Mathlib.Algebra.BigOperators.Fin
import Mathlib.Data.Set.Card

/-! PIN pairing: a proof of the PIN over a handshake's transcript, and the attempts the device that shows
the PIN allows. HMAC is a parameter, and what a machine in the middle does with what it sees is a
strategy. -/
namespace PeerBeam.PinPairing

def pinDigits : ℕ := 6
def maxAttempts : ℕ := 3

def range : ℕ := 1000000

/-- The last value of the final whole block of draws. -/
def limit : ℕ := (2 ^ 32 - 1) - (2 ^ 32 - 1) % range - 1

def reduce (draw : UInt32) : Option ℕ := if draw.toNat ≤ limit then some (draw.toNat % range) else none

structure Pin where
  digits : Fin pinDigits → Fin 10
  deriving DecidableEq

namespace Pin

/-- Six decimal digits, zero-padded. -/
def ofValue (v : ℕ) : Pin := ⟨fun i => Fin.ofNat 10 (v / 10 ^ (i.rev : ℕ))⟩

def generate (draws : List UInt32) : Option Pin := (draws.findSome? reduce).map ofValue

def asBytes (pin : Pin) : List UInt8 := List.ofFn fun i => 48 + UInt8.ofNat (pin.digits i)

theorem asBytes_injective : Function.Injective asBytes := by
  intro pin pin' same
  have digit : ∀ a b : Fin 10, 48 + UInt8.ofNat a = 48 + UInt8.ofNat b → a = b := by decide
  have each := List.ofFn_injective same
  cases pin
  cases pin'
  congr 1
  funext i
  exact digit _ _ (congrFun each i)

/-- Every PIN is the reading of a value. -/
theorem exists_ofValue (pin : Pin) : ∃ v < range, ofValue v = pin := by
  refine ⟨finFunctionFinEquiv (pin.digits ∘ Fin.rev), Fin.is_lt _, ?_⟩
  cases pin with
  | mk digits =>
    rw [ofValue]
    congr 1
    funext i
    apply Fin.ext
    have read := finFunctionFinEquiv_symm_apply_val (finFunctionFinEquiv (digits ∘ Fin.rev)) i.rev
    rw [Equiv.symm_apply_apply, Function.comp_apply, Fin.rev_rev] at read
    exact read.symm

instance : Fintype Pin :=
  .ofEquiv (Fin pinDigits → Fin 10) ⟨Pin.mk, Pin.digits, fun _ => rfl, fun _ => rfl⟩

theorem card_eq : Fintype.card Pin = range := by
  rw [Fintype.ofEquiv_card, Fintype.card_fun, Fintype.card_fin, Fintype.card_fin]
  rfl

end Pin

/-- The bytes of `peerbeam-pin-pairing-v1`. -/
def pairingLabel : List UInt8 :=
  [112, 101, 101, 114, 98, 101, 97, 109, 45, 112, 105, 110, 45, 112, 97, 105, 114, 105, 110, 103, 45,
    118, 49]

inductive Attempt where
  | verified
  | wrong (attemptsLeft : ℕ)
  | exhausted
  deriving DecidableEq, Repr

structure Pairing where
  pin : Pin
  attemptsLeft : ℕ

def Pairing.begin (pin : Pin) : Pairing := ⟨pin, maxAttempts⟩

variable {Tag : Type*} [DecidableEq Tag] (hmac : List UInt8 → List UInt8 → Tag)

def prove (pin : Pin) (transcript : List UInt8) : Tag := hmac pin.asBytes (pairingLabel ++ transcript)

def verify (pin : Pin) (transcript : List UInt8) (proof : Tag) : Bool := prove hmac pin transcript = proof

/-- A right proof uses no attempt up, and after the last one none is right. -/
def Pairing.attempt (p : Pairing) (transcript : List UInt8) (proof : Tag) : Attempt × Pairing :=
  if p.attemptsLeft = 0 then (.exhausted, p)
  else if verify hmac p.pin transcript proof then (.verified, p)
  else
    let left := p.attemptsLeft - 1
    (if left = 0 then .exhausted else .wrong left, { p with attemptsLeft := left })

/-- What to present next, after the answers so far. -/
abbrev Strategy (Tag : Type*) := List Attempt → List UInt8 × Tag

variable (strategy : Strategy Tag) (pin : Pin)

def play : ℕ → List Attempt × Pairing
  | 0 => ([], .begin pin)
  | n + 1 =>
    let before := play n
    let call := strategy before.1
    let out := before.2.attempt hmac call.1 call.2
    (before.1 ++ [out.1], out.2)

def presented (n : ℕ) : List UInt8 × Tag := strategy (play hmac strategy pin n).1

def answer (n : ℕ) : Attempt :=
  ((play hmac strategy pin n).2.attempt hmac (presented hmac strategy pin n).1
    (presented hmac strategy pin n).2).1

def right (call : List UInt8 × Tag) : Bool := verify hmac pin call.1 call.2

/-- How many of the first calls presented a wrong proof. -/
def wrongs (n : ℕ) : ℕ := (List.range n).countP fun i => !right hmac pin (presented hmac strategy pin i)

def Verifies : Prop := ∃ n, answer hmac strategy pin n = .verified

/-- What one call does: a spent pairing stays so, a right proof is verified, and a wrong one counts. -/
theorem play_succ (n : ℕ) : play hmac strategy pin (n + 1) =
    ((play hmac strategy pin n).1 ++ [answer hmac strategy pin n],
      ((play hmac strategy pin n).2.attempt hmac (presented hmac strategy pin n).1
        (presented hmac strategy pin n).2).2) := rfl

theorem play_pin (n : ℕ) : (play hmac strategy pin n).2.pin = pin := by
  induction n with
  | zero => rfl
  | succ n ih =>
    rw [play_succ, Pairing.attempt]
    split
    · exact ih
    · split
      · exact ih
      · exact ih

theorem wrongs_succ (n : ℕ) : wrongs hmac strategy pin (n + 1) =
    wrongs hmac strategy pin n + if right hmac pin (presented hmac strategy pin n) then 0 else 1 := by
  rw [wrongs, wrongs, List.range_succ, List.countP_append, List.countP_singleton]
  cases right hmac pin (presented hmac strategy pin n) <;> rfl

/-- What is left is what the wrong proofs have not used. -/
theorem attemptsLeft_eq (n : ℕ) :
    (play hmac strategy pin n).2.attemptsLeft = maxAttempts - wrongs hmac strategy pin n := by
  induction n with
  | zero => rfl
  | succ n ih =>
    have known : verify hmac (play hmac strategy pin n).2.pin (presented hmac strategy pin n).1
        (presented hmac strategy pin n).2 = right hmac pin (presented hmac strategy pin n) := by
      rw [play_pin, right]
    rw [play_succ, wrongs_succ, Pairing.attempt, known]
    by_cases spent : (play hmac strategy pin n).2.attemptsLeft = 0
    · rw [if_pos spent]
      show (play hmac strategy pin n).2.attemptsLeft = _
      omega
    · rw [if_neg spent]
      cases right hmac pin (presented hmac strategy pin n) with
      | true => exact ih
      | false =>
        show (play hmac strategy pin n).2.attemptsLeft - 1 = _
        rw [ih]
        rfl

/-- Once the attempts are spent on wrong proofs, no later one is verified. -/
theorem answer_of_spent {n : ℕ} (spent : maxAttempts ≤ wrongs hmac strategy pin n) :
    answer hmac strategy pin n = .exhausted := by
  have left := attemptsLeft_eq hmac strategy pin n
  rw [Nat.sub_eq_zero_of_le spent] at left
  rw [answer, Pairing.attempt, if_pos left]

theorem wrongs_mono {n m : ℕ} (le : n ≤ m) : wrongs hmac strategy pin n ≤ wrongs hmac strategy pin m := by
  induction le with
  | refl => exact le_rfl
  | step _ ih => exact ih.trans (wrongs_succ hmac strategy pin _ ▸ Nat.le_add_right _ _)

/-- The answers while every proof is wrong: they do not depend on the PIN. -/
def told (n : ℕ) : List Attempt :=
  (List.range n).map fun i => if i + 1 < maxAttempts then .wrong (maxAttempts - (i + 1)) else .exhausted

theorem told_succ (n : ℕ) : told (n + 1) = told n ++
    [if n + 1 < maxAttempts then .wrong (maxAttempts - (n + 1)) else .exhausted] := by
  rw [told, told, List.range_succ, List.map_append]
  rfl

theorem verified_not_told (n : ℕ) : Attempt.verified ∉ told n := by
  intro mem
  obtain ⟨i, -, same⟩ := List.mem_map.mp mem
  split at same <;> exact nomatch same

variable {strategy pin}

theorem play_wrong {n : ℕ}
    (h : ∀ i < n, i < maxAttempts → right hmac pin (strategy (told i)) = false) :
    play hmac strategy pin n = (told n, ⟨pin, maxAttempts - n⟩) := by
  induction n with
  | zero => rfl
  | succ n ih =>
    have before := ih fun i lt => h i (lt.trans n.lt_succ_self)
    rw [play_succ, answer, presented, before, told_succ, Pairing.attempt]
    by_cases spent : maxAttempts ≤ n
    · have zero : maxAttempts - n = 0 := Nat.sub_eq_zero_of_le spent
      have next : maxAttempts - (n + 1) = 0 := Nat.sub_eq_zero_of_le (spent.trans n.le_succ)
      have past : ¬ n + 1 < maxAttempts := by omega
      rw [if_pos zero, if_neg past, zero, next]
    · have wrong := h n n.lt_succ_self (Nat.lt_of_not_le spent)
      rw [right] at wrong
      have left : maxAttempts - n ≠ 0 := by omega
      rw [if_neg left, wrong]
      simp only [Bool.false_eq_true, if_false, Nat.sub_sub]
      congr 3
      by_cases last : n + 1 < maxAttempts
      · have more : maxAttempts - (n + 1) ≠ 0 := by omega
        rw [if_pos last, if_neg more]
      · have none : maxAttempts - (n + 1) = 0 := by omega
        rw [if_neg last, if_pos none]

/-- A strategy has as many guesses as the pairing allows, each made knowing only that those before were
wrong. -/
theorem verifies_iff : Verifies hmac strategy pin ↔
    ∃ i < maxAttempts, right hmac pin (strategy (told i)) = true := by
  constructor
  · rintro ⟨n, verified⟩
    by_contra none
    push Not at none
    have wrong (m : ℕ) : play hmac strategy pin m = _ := play_wrong hmac fun i _ lt =>
      Bool.eq_false_iff.mpr (none i lt)
    have mem : Attempt.verified ∈ (play hmac strategy pin (n + 1)).1 := by
      rw [play_succ, verified]
      exact List.mem_append_right _ (List.mem_singleton_self _)
    rw [wrong (n + 1)] at mem
    exact verified_not_told _ mem
  · intro some
    classical
    have found := Nat.find_spec some
    have least := fun j => Nat.find_min some (m := j)
    have before : play hmac strategy pin (Nat.find some) = _ := play_wrong hmac fun i lt bound =>
      Bool.eq_false_iff.mpr fun holds => least i lt ⟨bound, holds⟩
    refine ⟨Nat.find some, ?_⟩
    have left : maxAttempts - Nat.find some ≠ 0 := by omega
    have rightly := found.2
    rw [right] at rightly
    rw [answer, presented, before, Pairing.attempt, if_neg left, rightly]
    rfl

def guess (transcript : List UInt8) (pins : List Pin) : Strategy Tag :=
  fun seen => (transcript, prove hmac (pins.getD seen.length (.ofValue 0)) transcript)

theorem guess_verifies (transcript : List UInt8) {pins : List Pin} (few : pins.length ≤ maxAttempts)
    (mem : pin ∈ pins) : Verifies hmac (guess hmac transcript pins) pin := by
  obtain ⟨i, lt, rfl⟩ := List.mem_iff_getElem.mp mem
  refine (verifies_iff hmac).mpr ⟨i, lt.trans_le few, ?_⟩
  have asked : (told i).length = i := by rw [told, List.length_map, List.length_range]
  rw [right, verify, guess, asked, List.getD_eq_getElem?_getD, List.getElem?_eq_getElem lt]
  exact decide_eq_true rfl

def bruteForce (captured : List UInt8) (transcript : List UInt8) (proof : Tag) : Strategy Tag :=
  let known := ((List.range range).map Pin.ofValue).find? fun pin => verify hmac pin captured proof
  guess hmac transcript known.toList

/-- The PINs that look like this one. -/
def alike {View : Type*} [DecidableEq View] (t₁ : List UInt8) (view : Tag → View) (pin : Pin) :
    Finset Pin :=
  Finset.univ.filter fun pin' => view (prove hmac pin' t₁) = view (prove hmac pin t₁)

/-- Some PINs where the view is this PIN's, others where it is not. -/
def sides {View : Type*} [DecidableEq View] (t₁ : List UInt8) (view : Tag → View) (pin : Pin)
    (here there : List Pin) (seen : View) : Strategy Tag :=
  guess hmac (0 :: t₁) (if seen = view (prove hmac pin t₁) then here else there)

variable {hmac}
variable (inj : ∀ key message key' message', hmac key message = hmac key' message' →
  key = key' ∧ message = message')
include inj

omit [DecidableEq Tag] in
theorem prove_injective (transcript : List UInt8) :
    Function.Injective fun pin => prove hmac pin transcript :=
  fun _ _ same => Pin.asBytes_injective (inj _ _ _ _ same).1

/-- The captured proof gives the PIN away. -/
theorem bruteForce_verifies (captured transcript : List UInt8) (pin : Pin) :
    Verifies hmac (bruteForce hmac captured transcript (prove hmac pin captured)) pin := by
  rw [bruteForce]
  cases found : ((List.range range).map Pin.ofValue).find?
      (fun tried => verify hmac tried captured (prove hmac pin captured)) with
  | none =>
    obtain ⟨v, lt, rfl⟩ := pin.exists_ofValue
    have own : verify hmac (.ofValue v) captured (prove hmac (.ofValue v) captured) = true :=
      decide_eq_true rfl
    have listed : Pin.ofValue v ∈ (List.range range).map Pin.ofValue :=
      List.mem_map.mpr ⟨v, List.mem_range.mpr lt, rfl⟩
    have wrong := List.find?_eq_none.mp found (Pin.ofValue v) listed
    exact absurd own wrong
  | some tried =>
    have same : tried = pin := by
      apply prove_injective inj captured
      have held := List.find?_some found
      exact of_decide_eq_true held
    rw [same]
    exact guess_verifies hmac transcript (Nat.le_add_left 1 2) List.mem_cons_self

/-- What does not depend on the PIN verifies no more of them than it has attempts. -/
theorem verified_card (strategy : Strategy Tag) :
    {pin | Verifies hmac strategy pin}.ncard ≤ maxAttempts := by
  have guessed : ∀ pin : {pin | Verifies hmac strategy pin}, ∃ i : Fin maxAttempts,
      right hmac pin (strategy (told i)) = true := by
    intro pin
    obtain ⟨i, lt, rightly⟩ := (verifies_iff hmac).mp pin.2
    exact ⟨⟨i, lt⟩, rightly⟩
  choose at' correct using guessed
  have once : Function.Injective at' := by
    intro pin pin' same
    have first := of_decide_eq_true (correct pin)
    have second := of_decide_eq_true (correct pin')
    rw [← same] at second
    exact Subtype.ext (prove_injective inj _ (first.trans second.symm))
  have le := Nat.card_le_card_of_injective at' once
  rwa [Nat.card_fin] at le

section
variable {View : Type*} [DecidableEq View] (t₁ : List UInt8) (view : Tag → View) (pin : Pin)

omit inj in
/-- What tells two PINs apart finds as many on either side as it may guess. -/
theorem sides_verify {a b : ℕ} (first : a ≤ (alike hmac t₁ view pin).card)
    (second : b ≤ (alike hmac t₁ view pin)ᶜ.card) (few : a ≤ maxAttempts) (few' : b ≤ maxAttempts) :
    ∃ here there, a + b ≤ {pin' | Verifies hmac (sides hmac t₁ view pin here there
      (view (prove hmac pin' t₁))) pin'}.ncard := by
  obtain ⟨here, sub, card⟩ := Finset.exists_subset_card_eq first
  obtain ⟨there, sub', card'⟩ := Finset.exists_subset_card_eq second
  refine ⟨here.toList, there.toList, ?_⟩
  have disjoint : Disjoint here there :=
    Disjoint.mono sub sub' disjoint_compl_right
  have size : (here ∪ there).card = a + b := by
    rw [Finset.card_union_of_disjoint disjoint, card, card']
  rw [← size, ← Set.ncard_coe_finset]
  refine Set.ncard_le_ncard (fun pin' mem => ?_) (Set.toFinite _)
  rw [Set.mem_ofPred_eq, sides]
  rcases Finset.mem_union.mp (Finset.mem_coe.mp mem) with mem | mem
  · have same := (Finset.mem_filter.mp (sub mem)).2
    rw [if_pos same]
    exact guess_verifies hmac _ (by rw [Finset.length_toList, card]; exact few)
      (Finset.mem_toList.mpr mem)
  · have apart : view (prove hmac pin' t₁) ≠ view (prove hmac pin t₁) := fun same =>
      Finset.mem_compl.mp (sub' mem) (Finset.mem_filter.mpr ⟨Finset.mem_univ _, same⟩)
    rw [if_neg apart]
    exact guess_verifies hmac _ (by rw [Finset.length_toList, card']; exact few')
      (Finset.mem_toList.mpr mem)

end

/-- The proof typed over one transcript is worth no more than an attempt's guess over another exactly
where what is seen of it tells no two PINs apart; and the attempts are counted whatever is seen. -/
theorem guesses_counted_iff {View : Type*} (t₁ : List UInt8) (view : Tag → View) :
    ((∀ strategy : View → Strategy Tag, (∀ seen answers, (strategy seen answers).1 ≠ t₁) →
        {pin | Verifies hmac (strategy (view (prove hmac pin t₁))) pin}.ncard ≤ maxAttempts) ∧
      ∀ (strategy : Strategy Tag) pin n m, n ≤ m → maxAttempts ≤ wrongs hmac strategy pin n →
        answer hmac strategy pin m ≠ .verified) ↔
      ∀ pin pin', view (prove hmac pin t₁) = view (prove hmac pin' t₁) := by
  classical
  constructor
  · rintro ⟨counted, -⟩ pin pin'
    by_contra apart
    have elsewhere (here there : List Pin) (seen : View) (answers : List Attempt) :
        (sides hmac t₁ view pin here there seen answers).1 ≠ t₁ := List.cons_ne_self 0 t₁
    have split := Finset.card_add_card_compl (alike hmac t₁ view pin)
    rw [Pin.card_eq, range] at split
    have first : 1 ≤ (alike hmac t₁ view pin).card := Finset.card_pos.mpr ⟨pin, by simp [alike]⟩
    have second : 1 ≤ (alike hmac t₁ view pin)ᶜ.card :=
      Finset.card_pos.mpr ⟨pin', by simpa [alike] using Ne.symm apart⟩
    rcases Nat.lt_or_ge (alike hmac t₁ view pin).card maxAttempts with few | many
    · have rest : maxAttempts ≤ (alike hmac t₁ view pin)ᶜ.card := by
        rw [maxAttempts] at few ⊢
        omega
      obtain ⟨here, there, found⟩ := sides_verify t₁ view pin first rest (Nat.le_add_left 1 2) le_rfl
      exact absurd (found.trans (counted _ (elsewhere here there))) (by decide)
    · obtain ⟨here, there, found⟩ := sides_verify t₁ view pin many second le_rfl (Nat.le_add_left 1 2)
      exact absurd (found.trans (counted _ (elsewhere here there))) (by decide)
  · intro blind
    refine ⟨fun strategy _ => ?_, fun strategy pin n m le spent verified => ?_⟩
    · have same : {pin | Verifies hmac (strategy (view (prove hmac pin t₁))) pin} =
          {pin | Verifies hmac (strategy (view (prove hmac (.ofValue 0) t₁))) pin} := by
        ext pin
        rw [Set.mem_ofPred_eq, Set.mem_ofPred_eq, blind pin]
      rw [same]
      exact verified_card inj _
    · have later := spent.trans (wrongs_mono hmac strategy pin le)
      rw [answer_of_spent hmac strategy pin later] at verified
      exact nomatch verified

omit [DecidableEq Tag] inj in
/-- A machine in the middle that sees nothing of the proof. -/
theorem blind_guesses :
    ((∀ strategy : Unit → Strategy (List UInt8 × List UInt8),
        (∀ seen answers, (strategy seen answers).1 ≠ []) →
        {pin | Verifies Prod.mk (strategy ()) pin}.ncard ≤ maxAttempts) ∧
      ∀ (strategy : Strategy (List UInt8 × List UInt8)) pin n m, n ≤ m →
        maxAttempts ≤ wrongs Prod.mk strategy pin n → answer Prod.mk strategy pin m ≠ .verified) :=
  have inj (key message key' message' : List UInt8)
      (same : Prod.mk key message = Prod.mk key' message') : key = key' ∧ message = message' :=
    Prod.mk.inj same
  (guesses_counted_iff inj [] fun _ => ()).mpr fun _ _ => rfl

omit [DecidableEq Tag] inj in
/-- What sees the proof finds every PIN at the first attempt. -/
theorem captured_proof_breaks :
    ∃ strategy : List UInt8 × List UInt8 → Strategy (List UInt8 × List UInt8),
      (∀ seen answers, (strategy seen answers).1 ≠ []) ∧
        {pin | Verifies Prod.mk (strategy (prove Prod.mk pin [])) pin}.ncard = range := by
  refine ⟨bruteForce Prod.mk [] [0], fun _ _ => List.cons_ne_nil 0 [], ?_⟩
  have all : {pin | Verifies Prod.mk (bruteForce Prod.mk [] [0] (prove Prod.mk pin [])) pin} = Set.univ :=
    Set.eq_univ_of_forall fun pin => bruteForce_verifies (fun _ _ _ _ => Prod.mk.inj) [] [0] pin
  rw [all, Set.ncard_univ, Nat.card_eq_fintype_card, Pin.card_eq]

end PeerBeam.PinPairing
