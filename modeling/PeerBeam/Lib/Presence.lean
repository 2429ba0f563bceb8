import Mathlib.Data.Set.Insert
import PeerBeam.Lib.Run

/-! Streams of news about which keys are there: who follows one adds a key it is said of that it is there, and
deletes one it is said of that it is gone. A tracker emits such a stream about a world that its inputs change. -/
namespace Presence
open TransitionRun
variable {κ σ τ α : Type*}

inductive News (κ : Type*)
  | here (k : κ)
  | gone (k : κ)

def follow (view : Set κ) : News κ → Set κ
  | .here k => insert k view
  | .gone k => view \ {k}

theorem mem_foldl_gone {keys : List κ} {view : Set κ} {k : κ} :
    k ∈ (keys.map News.gone).foldl follow view ↔ k ∈ view ∧ k ∉ keys := by
  induction keys generalizing view with
  | nil => exact (and_iff_left List.not_mem_nil).symm
  | cons k' keys ih =>
    rw [List.map_cons, List.foldl_cons, ih, List.mem_cons, not_or, ← and_assoc]
    exact Iff.rfl

/-- The news leave a view of what is there, and none says of what is there that it is gone. -/
structure Faithful (view : Set κ) (news : List (News κ)) (present : Set κ) : Prop where
  view_eq : news.foldl follow view = present
  kept : ∀ k, .gone k ∈ news → k ∉ present

namespace Faithful
variable {view present : Set κ}

theorem nil_iff : Faithful view [] present ↔ view = present :=
  ⟨view_eq, fun same => ⟨same, fun _ => (nomatch ·)⟩⟩

theorem here_iff {k : κ} : Faithful view [.here k] present ↔ insert k view = present := by
  refine ⟨view_eq, fun same => ⟨same, fun _ gone => ?_⟩⟩
  cases List.mem_singleton.mp gone

/-- News of what is there may come before the keys that are gone are listed. -/
theorem of_gone {heard : List (News κ)} {keys : List κ} (quiet : ∀ k, .gone k ∉ heard)
    (left : ∀ k, k ∈ present ↔ k ∈ heard.foldl follow view ∧ k ∉ keys) :
    Faithful view (heard ++ keys.map .gone) present := by
  refine ⟨?_, fun k gone here => ?_⟩
  · rw [List.foldl_append]
    ext k
    exact mem_foldl_gone.trans (left k).symm
  · rcases List.mem_append.mp gone with early | late
    · exact quiet k early
    · obtain ⟨k', mem, same⟩ := List.mem_map.mp late
      cases same
      exact ((left k).mp here).2 mem

theorem gone {keys : List κ} (left : ∀ k, k ∈ present ↔ k ∈ view ∧ k ∉ keys) :
    Faithful view (keys.map .gone) present :=
  @of_gone _ _ _ [] _ (fun _ => List.not_mem_nil) left

theorem gone_iff {k : κ} : Faithful view [.gone k] present ↔ k ∉ present ∧ view \ {k} = present := by
  refine ⟨fun h => ⟨h.kept k List.mem_cons_self, h.view_eq⟩, fun ⟨absent, left⟩ => ⟨left, fun k' gone => ?_⟩⟩
  cases List.mem_singleton.mp gone
  exact absent

end Faithful

/-- What a tracker does on an input and says of it, and what the input makes of the world. -/
structure Tracker (σ τ α κ : Type*) where
  step : σ → α → σ
  news : σ → α → List (News κ)
  next : τ → α → τ
  present : τ → Set κ

structure Followed (σ τ κ : Type*) where
  tracker : σ
  world : τ
  view : Set κ

namespace Tracker
variable (t : Tracker σ τ α κ)

def watch (f : Followed σ τ κ) (a : α) : Followed σ τ κ :=
  ⟨t.step f.tracker a, t.next f.world a, (t.news f.tracker a).foldl follow f.view⟩

def Describes (f : Followed σ τ κ) (a : α) : Prop :=
  Faithful f.view (t.news f.tracker a) (t.present (t.next f.world a))

structure Right (fits : σ → τ → Prop) (f : Followed σ τ κ) : Prop where
  fits : fits f.tracker f.world
  view_eq : f.view = t.present f.world

variable {t} {fits : σ → τ → Prop}

theorem Right.watch {f : Followed σ τ κ} {a : α} (right : t.Right fits f)
    (preserve : ∀ s w a, fits s w → fits (t.step s a) (t.next w a)) (described : t.Describes f a) :
    t.Right fits (t.watch f a) :=
  ⟨preserve _ _ a right.fits, described.view_eq⟩

/-- A condition that tells the inputs of which a right tracker gives a right account tells the runs in which it always
does. -/
theorem describes_along_iff {ok : σ → τ → α → Prop}
    (preserve : ∀ s w a, fits s w → fits (t.step s a) (t.next w a))
    (agree : ∀ s w a, fits s w → (Faithful (t.present w) (t.news s a) (t.present (t.next w a)) ↔ ok s w a))
    {f : Followed σ τ κ} (right : t.Right fits f) (inputs : List α) :
    Along t.watch t.Describes f inputs ↔ Along t.watch (fun f a => ok f.tracker f.world a) f inputs := by
  refine along_congr right (fun f a right => ?_) (fun f a right described => right.watch preserve described) inputs
  rw [Describes, right.view_eq]
  exact agree _ _ a right.fits

/-- A tracker that gives a right account whenever it is right always does. -/
theorem describes_along (preserve : ∀ s w a, fits s w → fits (t.step s a) (t.next w a))
    (faithful : ∀ s w a, fits s w → Faithful (t.present w) (t.news s a) (t.present (t.next w a)))
    {f : Followed σ τ κ} (right : t.Right fits f) (inputs : List α) : Along t.watch t.Describes f inputs := by
  refine along_of_invariant right (fun f a right => ?_) (fun f a right described => right.watch preserve described) inputs
  rw [Describes, right.view_eq]
  exact faithful _ _ a right.fits

end Tracker

end Presence
