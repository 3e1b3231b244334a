import Mathlib.Data.List.Basic
import Mathlib.Data.List.Perm.Basic
import TeamRoles.Precedence.Graph

/-!
Sorting by counters. As long as every successor is a node, each counter is the number of edges that
lead to its node from nodes that still wait; so no counter falls below zero, nothing is lost, what is
sorted comes before all that it is related to, and what is left over has something left before it.
-/

namespace TeamRoles.Precedence

variable {α : Type} [DecidableEq α]

theorem lookup_map {β γ : Type} {l : List (α × β)} {f : α → β → γ} {a : α} :
    (l.map fun entry => (entry.1, f entry.1 entry.2)).lookup a = (l.lookup a).map (f a) := by
  induction l with
  | nil => rfl
  | cons entry l ih =>
    obtain ⟨x, v⟩ := entry
    by_cases same : a = x
    · subst same
      simp
    · have differ : (a == x) = false := beq_eq_false_iff_ne.2 same
      simp [List.lookup_cons, differ, ih]

theorem lookup_map_node {β : Type} {nodes : List α} {f : α → β} {a : α} :
    (nodes.map fun x => (x, f x)).lookup a = if a ∈ nodes then some (f a) else none := by
  induction nodes with
  | nil => rfl
  | cons x nodes ih =>
    by_cases same : a = x
    · subst same
      simp
    · have differ : (a == x) = false := beq_eq_false_iff_ne.2 same
      simp [List.lookup_cons, differ, ih, same]

namespace Counters

variable {c c' : Counters α} {succ : Successors α} {nodes waiting : List α} {a b : α}

theorem of_lower? (h : c.lower? a = some c') (b : α) :
    c'.of b = c.of b - if b = a then 1 else 0 := by
  unfold lower? at h
  split at h
  · cases h
  · cases h
    simp only [of, lookup_map (f := fun x n => if x = a then n - 1 else n)]
    cases c.lookup b <;> split <;> simp_all

theorem exists_lower? (positive : 0 < c.of a) : ∃ c', c.lower? a = some c' :=
  ⟨_, if_neg (Nat.ne_of_gt positive)⟩

theorem exists_foldlM_lower? {l : List α} (enough : ∀ b, l.count b ≤ c.of b) :
    ∃ c', l.foldlM lower? c = some c' ∧ ∀ b, c'.of b = c.of b - l.count b := by
  induction l generalizing c with
  | nil => exact ⟨c, rfl, fun _ => rfl⟩
  | cons a l ih =>
    have positive : 0 < c.of a := Nat.lt_of_lt_of_le (List.count_pos_iff.2 List.mem_cons_self) (enough a)
    obtain ⟨lowered, one⟩ := exists_lower? positive
    have rest (b : α) : l.count b ≤ lowered.of b := by
      have all := enough b
      rw [List.count_cons] at all
      rw [of_lower? one]
      grind
    obtain ⟨c', done, counted⟩ := ih rest
    refine ⟨c', by rw [List.foldlM_cons, one]; exact done, fun b => ?_⟩
    rw [counted, of_lower? one, List.count_cons]
    grind

def Right (c : Counters α) (succ : Successors α) (waiting : List α) : Prop :=
  ∀ a, c.of a = (waiting.flatMap succ.of).count a

theorem right_ofSuccessors (closed : ∀ a, succ.of a ⊆ nodes) :
    (ofSuccessors succ nodes).Right succ nodes := by
  intro a
  rw [of, ofSuccessors, lookup_map_node (f := fun a => (nodes.flatMap succ.of).count a)]
  split
  · rfl
  · next other =>
    refine (List.count_eq_zero.2 fun behind => other ?_).symm
    obtain ⟨b, -, next⟩ := List.mem_flatMap.1 behind
    exact closed b next

theorem count_flatMap_erase {f : α → List α} (h : a ∈ waiting) :
    (waiting.flatMap f).count b = (f a).count b + ((waiting.erase a).flatMap f).count b := by
  have split := (List.perm_cons_erase h).flatMap_right f
  rw [split.count_eq, List.flatMap_cons, List.count_append]

theorem Right.lower (h : c.Right succ waiting) (isWaiting : a ∈ waiting) :
    ∃ c', (succ.of a).foldlM lower? c = some c' ∧ c'.Right succ (waiting.erase a) := by
  have enough (b : α) : (succ.of a).count b ≤ c.of b := by
    rw [h b, count_flatMap_erase isWaiting]
    exact Nat.le_add_right _ _
  obtain ⟨c', lowered, counted⟩ := exists_foldlM_lower? enough
  refine ⟨c', lowered, fun b => ?_⟩
  rw [counted, h b, count_flatMap_erase isWaiting, Nat.add_sub_cancel_left]

theorem Right.not_mem_of_zero (h : c.Right succ waiting) (zero : c.of a = 0) (isWaiting : b ∈ waiting) :
    a ∉ succ.of b := by
  intro behind
  rw [h a, List.count_eq_zero] at zero
  exact zero (List.mem_flatMap.2 ⟨b, isWaiting, behind⟩)

theorem Right.exists_of_ne_zero (h : c.Right succ waiting) (positive : c.of a ≠ 0) :
    ∃ b ∈ waiting, a ∈ succ.of b := by
  rw [h a] at positive
  exact List.mem_flatMap.1 (List.count_pos_iff.1 (Nat.pos_of_ne_zero positive))

end Counters

structure Sorted (succ : Successors α) (nodes sorted left : List α) : Prop where
  perm : (sorted ++ left).Perm nodes
  pairwise : sorted.Pairwise fun a b => a ∉ succ.of b
  irrefl : ∀ a ∈ sorted, a ∉ succ.of a
  stuck : ∀ a ∈ left, ∃ b ∈ left, a ∈ succ.of b

theorem exists_sortFrom? {succ : Successors α} {c : Counters α} {waiting : List α}
    (right : c.Right succ waiting) :
    ∃ sorted left, sortFrom? succ c waiting = some (sorted, left) ∧
      Sorted succ waiting sorted left := by
  fun_induction sortFrom? succ c waiting with
  | case1 c waiting none =>
    refine ⟨[], waiting, rfl, .refl _, .nil, nofun, fun a isWaiting => ?_⟩
    exact right.exists_of_ne_zero (by simpa using List.find?_eq_none.1 none a isWaiting)
  | case2 c waiting a found ih =>
    have isWaiting : a ∈ waiting := List.mem_of_find?_eq_some found
    have zero : c.of a = 0 := by simpa using List.find?_some found
    obtain ⟨c', lowered, right'⟩ := right.lower isWaiting
    obtain ⟨sorted, left, done, rest⟩ := ih c' right'
    refine ⟨a :: sorted, left, by rw [lowered]; simp [done], ?_, ?_, ?_, rest.stuck⟩
    · exact (rest.perm.cons a).trans (List.perm_cons_erase isWaiting).symm
    · refine List.pairwise_cons.2 ⟨fun b hb => ?_, rest.pairwise⟩
      have waits : b ∈ waiting.erase a := rest.perm.mem_iff.1 (List.mem_append_left _ hb)
      exact right.not_mem_of_zero zero (List.mem_of_mem_erase waits)
    · exact List.forall_mem_cons.2 ⟨right.not_mem_of_zero zero isWaiting, rest.irrefl⟩

theorem exists_sort? {succ : Successors α} {nodes : List α} (closed : ∀ a, succ.of a ⊆ nodes) :
    ∃ sorted left, sort? succ nodes = some (sorted, left) ∧ Sorted succ nodes sorted left :=
  exists_sortFrom? (Counters.right_ofSuccessors closed)

end TeamRoles.Precedence
