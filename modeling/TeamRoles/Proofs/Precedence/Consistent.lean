import Mathlib.Data.Set.Finite.List
import TeamRoles.Proofs.Precedence.Closure

/-!
Orders that respect a relation. There is at most one of them if any two elements are related by some way,
and a sort finds it unless the relation has a cycle; what a sort leaves over is on a cycle or behind one.
-/

namespace TeamRoles.Precedence

open Relation

variable {α : Type} {R : α → α → Prop} {order order' l : List α} {a b c : α}

theorem sublist_or_sublist (ha : a ∈ l) (hb : b ∈ l) (differ : a ≠ b) :
    [a, b].Sublist l ∨ [b, a].Sublist l := by
  obtain ⟨before, behind, rfl⟩ := List.append_of_mem ha
  rcases List.mem_append.1 hb with earlier | later
  · exact .inr ((List.singleton_sublist.2 earlier).append (List.singleton_sublist.2 List.mem_cons_self))
  · have isBehind : b ∈ behind := (List.mem_cons.1 later).resolve_left differ.symm
    exact .inl (((List.singleton_sublist.2 isBehind).cons_cons a).trans (List.sublist_append_right _ _))

theorem not_sublist_self (nodup : l.Nodup) : ¬ [a, a].Sublist l :=
  fun twice => List.pairwise_iff_forall_sublist.1 nodup twice rfl

theorem sublist_trans (nodup : l.Nodup) (first : [a, b].Sublist l) (second : [b, c].Sublist l) :
    [a, c].Sublist l := by
  induction l with
  | nil => cases first
  | cons d l ih =>
    obtain ⟨new, nodup⟩ := List.nodup_cons.1 nodup
    rw [← mem_pairs, pairs, List.mem_append, List.mem_map, mem_pairs] at first second ⊢
    have last : c ∈ l := by
      rcases second with ⟨_, mem, ⟨⟩⟩ | behind
      · exact mem
      · exact behind.subset (by simp)
    rcases first with ⟨_, mem, ⟨⟩⟩ | before
    · exact .inl ⟨c, last, rfl⟩
    · rcases second with ⟨_, _, ⟨⟩⟩ | behind
      · exact (new (before.subset (by simp))).elim
      · exact .inr (ih nodup before behind)

def Consistent (R : α → α → Prop) (order : List α) : Prop := ∀ a b, R a b → [a, b].Sublist order

namespace Consistent

theorem sublist (h : Consistent R order) (nodup : order.Nodup) (way : TransGen R a b) :
    [a, b].Sublist order := by
  induction way with
  | single edge => exact h _ _ edge
  | tail _ edge ih => exact sublist_trans nodup ih (h _ _ edge)

theorem acyclic (h : Consistent R order) (nodup : order.Nodup) : ¬ TransGen R a a :=
  fun cycle => not_sublist_self nodup (h.sublist nodup cycle)

theorem pairwise (h : Consistent R order) (nodup : order.Nodup)
    (total : ∀ a ∈ order, ∀ b ∈ order, a ≠ b → TransGen R a b ∨ TransGen R b a) :
    order.Pairwise (TransGen R) := by
  rw [List.pairwise_iff_forall_sublist]
  intro a b before
  have differ : a ≠ b := by
    rintro rfl
    exact not_sublist_self nodup before
  refine (total a (before.subset (by simp)) b (before.subset (by simp)) differ).resolve_right ?_
  intro back
  exact not_sublist_self nodup (sublist_trans nodup before (h.sublist nodup back))

theorem unique (h : Consistent R order) (h' : Consistent R order') (nodup : order.Nodup)
    (perm : order'.Perm order)
    (total : ∀ a ∈ order, ∀ b ∈ order, a ≠ b → TransGen R a b ∨ TransGen R b a) : order' = order := by
  have total' : ∀ a ∈ order', ∀ b ∈ order', a ≠ b → TransGen R a b ∨ TransGen R b a := by
    simpa only [perm.mem_iff] using total
  refine perm.eq_of_pairwise ?_ (h'.pairwise (perm.nodup_iff.2 nodup) total') (h.pairwise nodup total)
  intro a b _ _ there back
  exact (h.acyclic nodup (there.trans back)).elim

end Consistent

theorem exists_cycle_of_stuck [DecidableEq α] (stuck : ∀ a ∈ l, ∃ b ∈ l, R b a) (mem : a ∈ l) :
    ∃ c ∈ l, TransGen R c c ∧ ReflTransGen R c a := by
  by_contra! none
  -- What leads to the element is finite and without a cycle, so something in it has nothing before it.
  let Before := {c // c ∈ l ∧ ReflTransGen R c a}
  have : Finite Before := Set.Finite.subset l.finite_toSet fun _ h => h.1
  have : IsTrans Before fun x y => TransGen R x.1 y.1 := ⟨fun _ _ _ => TransGen.trans⟩
  have : Std.Irrefl fun x y : Before => TransGen R x.1 y.1 := ⟨fun x cycle => none x.1 x.2.1 cycle x.2.2⟩
  have founded := Finite.wellFounded_of_trans_of_irrefl fun x y : Before => TransGen R x.1 y.1
  obtain ⟨⟨x, isLeft, way⟩, -, least⟩ := founded.has_min Set.univ ⟨⟨a, mem, .refl⟩, trivial⟩
  obtain ⟨b, isLeft', edge⟩ := stuck x isLeft
  exact least ⟨b, isLeft', .head edge way⟩ trivial (.single edge)

namespace Sorted

variable [DecidableEq α] {succ : Successors α} {nodes sorted left : List α}

theorem exists_cycle (h : Sorted succ nodes sorted left) (mem : a ∈ left) :
    ∃ c ∈ left, TransGen succ.Next c c ∧ ReflTransGen succ.Next c a :=
  exists_cycle_of_stuck h.stuck mem

theorem sublist (h : Sorted succ nodes sorted []) (behind : b ∈ succ.of a) (differ : a ≠ b)
    (ha : a ∈ nodes) (hb : b ∈ nodes) : [a, b].Sublist sorted := by
  have perm : sorted.Perm nodes := by simpa using h.perm
  refine (sublist_or_sublist (perm.mem_iff.2 ha) (perm.mem_iff.2 hb) differ).resolve_right ?_
  exact fun backwards => List.pairwise_iff_forall_sublist.1 h.pairwise backwards behind

theorem consistent (h : Sorted succ nodes sorted []) (onNodes : succ.Over nodes) :
    Consistent succ.Next sorted := by
  intro a b edge
  have perm : sorted.Perm nodes := by simpa using h.perm
  have isNode : a ∈ nodes := by
    rw [← onNodes.keys]
    exact Successors.mem_keys_of_mem edge
  refine h.sublist edge ?_ isNode (onNodes.closed a edge)
  rintro rfl
  exact h.irrefl a (perm.mem_iff.2 isNode) edge

theorem left_eq_nil_iff (h : Sorted succ nodes sorted left) (onNodes : succ.Over nodes)
    (nodup : nodes.Nodup) : left = [] ↔ ∀ a, ¬ TransGen succ.Next a a := by
  constructor
  · rintro rfl a
    have perm : sorted.Perm nodes := by simpa using h.perm
    exact (h.consistent onNodes).acyclic (perm.nodup_iff.2 nodup)
  · intro acyclic
    rw [List.eq_nil_iff_forall_not_mem]
    intro a mem
    obtain ⟨c, -, cycle, -⟩ := h.exists_cycle mem
    exact acyclic c cycle

end Sorted

end TeamRoles.Precedence
