import Mathlib.Tactic.TypeStar
import TeamRoles.Env.Walk

/-!
Properties that resolutions have because their parts have them. Lists are gone through, and walks are taken, by
resolving one thing after another, so these properties pass through them.
-/

namespace TeamRoles

namespace Resolve

/-- The property passes from the parts of a resolution to the whole. -/
structure Compositional (C : {α : Type} → Resolve α → Prop) : Prop where
  pure {α : Type} {a : α} : C (Pure.pure a)
  bind {α β : Type} {x : Resolve α} {f : α → Resolve β} (hx : C x) (hf : ∀ a, C (f a)) : C (x >>= f)
  tooDeep {α : Type} : C (throw .tooDeep : Resolve α)
  depth : C Resolve.depth

namespace Compositional

variable {C : {α : Type} → Resolve α → Prop} (h : Compositional C)

include h

section Lists

variable {α : Type*} {β σ : Type} {l : List α}

theorem forM {f : α → Resolve PUnit} (hf : ∀ a ∈ l, C (f a)) : C (l.forM f) := by
  induction l with
  | nil => exact h.pure
  | cons a l ih =>
    obtain ⟨first, rest⟩ := List.forall_mem_cons.1 hf
    exact h.bind first fun _ => ih rest

theorem optionForM {o : Option α} {f : α → Resolve PUnit} (hf : ∀ a, C (f a)) : C (o.forM f) := by
  cases o with
  | none => exact h.pure
  | some a => exact hf a

theorem foldlM {f : σ → α → Resolve σ} (hf : ∀ s, ∀ a ∈ l, C (f s a)) (s : σ) : C (l.foldlM f s) := by
  induction l generalizing s with
  | nil => exact h.pure
  | cons a l ih =>
    refine h.bind (hf s a List.mem_cons_self) fun s => ih (fun s a ha => ?_) s
    exact hf s a (List.mem_cons_of_mem _ ha)

theorem findSomeM? {f : α → Resolve (Option β)} (hf : ∀ a ∈ l, C (f a)) : C (l.findSomeM? f) := by
  induction l with
  | nil => exact h.pure
  | cons a l ih =>
    obtain ⟨first, rest⟩ := List.forall_mem_cons.1 hf
    refine h.bind first fun b => ?_
    cases b with
    | none => exact ih rest
    | some b => exact h.pure

end Lists

section Collections

variable {α β : Type} {l : List α}

theorem mapM {f : α → Resolve β} (hf : ∀ a ∈ l, C (f a)) : C (l.mapM f) := by
  suffices loop : ∀ bs, C (List.mapM.loop f l bs) from loop []
  induction l with
  | nil => exact fun _ => h.pure
  | cons a l ih =>
    obtain ⟨first, rest⟩ := List.forall_mem_cons.1 hf
    exact fun bs => h.bind first fun b => ih rest (b :: bs)

theorem filterMapM {f : α → Resolve (Option β)} (hf : ∀ a ∈ l, C (f a)) : C (l.filterMapM f) := by
  suffices loop : ∀ bs, C (List.filterMapM.loop f l bs) from loop []
  induction l with
  | nil => exact fun _ => h.pure
  | cons a l ih =>
    obtain ⟨first, rest⟩ := List.forall_mem_cons.1 hf
    refine fun bs => h.bind first fun b => ?_
    cases b with
    | none => exact ih rest bs
    | some b => exact ih rest (b :: bs)

end Collections

section Walks

variable {α σ : Type} [BEq α] {order : WalkOrder} {above : α → Resolve (List α)} {visit : σ → α → Resolve (Visit σ)}

theorem walkFrom (hAbove : ∀ a, C (above a)) (hVisit : ∀ s a, C (visit s a)) (fuel : Nat) (seen todo : List α)
    (found : σ) : C (walkFrom order above visit fuel seen todo found) := by
  induction fuel generalizing seen todo found with
  | zero =>
    cases todo with
    | nil => exact h.pure
    | cons a todo => exact h.tooDeep
  | succ fuel ih =>
    cases todo with
    | nil => exact h.pure
    | cons a todo =>
      rw [Resolve.walkFrom]
      split
      · exact ih _ _ _
      · refine h.bind (hVisit found a) fun next => ?_
        cases next with
        | stop found => exact h.pure
        | leaf found => exact ih _ _ _
        | inner found => exact h.bind (hAbove a) fun _ => ih _ _ _

theorem walk (hAbove : ∀ a, C (above a)) (start : List α) (found : σ) (hVisit : ∀ s a, C (visit s a)) :
    C (walk order above start found visit) :=
  h.bind h.depth fun fuel => h.walkFrom hAbove hVisit fuel [] start found

end Walks

end Compositional

end Resolve

end TeamRoles
