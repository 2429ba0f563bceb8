import Mathlib.Data.List.Perm.Basic
import Mathlib.Data.List.Nodup
import Mathlib.Logic.Function.Basic

/-! What a table holds under the keys of a list, as its entries come and go. -/
namespace Held
variable {κ α : Type*} {keys : List κ} {table : κ → Option α} {k : κ} {a : α}

def held (keys : List κ) (table : κ → Option α) : List α := keys.filterMap table

theorem held_cons_none (free : table k = none) : held (k :: keys) table = held keys table :=
  List.filterMap_cons_none free

theorem held_cons_some (here : table k = some a) : held (k :: keys) table = a :: held keys table :=
  List.filterMap_cons_some here

theorem length_held_le : (held keys table).length ≤ keys.length := List.length_filterMap_le ..

/-- A free key leaves room for one more value. -/
theorem length_held_lt (mem : k ∈ keys) (free : table k = none) : (held keys table).length < keys.length := by
  induction keys with
  | nil => cases mem
  | cons first keys ih =>
    rw [List.length_cons]
    rcases List.mem_cons.mp mem with rfl | later
    · rw [held_cons_none free]
      exact Nat.lt_succ_of_le length_held_le
    · have fewer := ih later
      cases value : table first with
      | none => rw [held_cons_none value]; omega
      | some b => rw [held_cons_some value, List.length_cons]; omega

variable [DecidableEq κ]

theorem held_update_of_notMem (out : k ∉ keys) (x : Option α) :
    held keys (Function.update table k x) = held keys table := by
  refine List.filterMap_congr fun other mem => ?_
  exact Function.update_of_ne (ne_of_mem_of_not_mem mem out) ..

/-- An entry under a free key is one more value. -/
theorem held_insert (nodup : keys.Nodup) (mem : k ∈ keys) (free : table k = none) :
    (held keys (Function.update table k (some a))).Perm (a :: held keys table) := by
  induction keys with
  | nil => cases mem
  | cons first keys ih =>
    obtain ⟨out, rest⟩ := List.nodup_cons.mp nodup
    by_cases here : k = first
    · subst here
      rw [held_cons_some (Function.update_self ..), held_update_of_notMem out, held_cons_none free]
    · have later := ih rest ((List.mem_cons.mp mem).resolve_left here)
      have same : Function.update table k (some a) first = table first := Function.update_of_ne (Ne.symm here) ..
      cases value : table first with
      | none => rwa [held_cons_none (same.trans value), held_cons_none value]
      | some b =>
        rw [held_cons_some (same.trans value), held_cons_some value]
        exact (later.cons b).trans (.swap ..)

/-- Taking an entry out leaves the other values. -/
theorem held_remove (nodup : keys.Nodup) (mem : k ∈ keys) (here : table k = some a) :
    (held keys table).Perm (a :: held keys (Function.update table k none)) := by
  have free : Function.update table k none k = none := Function.update_self ..
  have back := held_insert nodup mem free (a := a)
  rwa [Function.update_idem, ← here, Function.update_eq_self] at back

end Held
