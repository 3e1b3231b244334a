import TeamRoles.Proofs.BaseCall.Analysis

/-!
The rounds of a loop. An analysis is additive: from the union of two sets of counts it gives the joined exits,
and from no counts it gives none. So each round but the last adds a count to those at the head of the loop,
there are three rounds at most, and the counts that the last one leaves are the least that contain the first ones
and all that come back (`settle_least_in_three`).
-/

namespace TeamRoles

namespace CallCounts

variable {a b : CallCounts}

instance : HasSubset CallCounts := ⟨fun a b => ∀ x ∈ a, x ∈ b⟩

theorem ext_mem (h : ∀ x, x ∈ a ↔ x ∈ b) : a = b := by
  have bits (x : Count) : a.has x = b.has x := Bool.eq_iff_iff.2 (h x)
  obtain ⟨z, o, m⟩ := a
  obtain ⟨z', o', m'⟩ := b
  rw [mk.injEq]
  exact ⟨bits .zero, bits .one, bits .many⟩

theorem eq_empty_or_size_pos (c : CallCounts) : c = empty ∨ 0 < c.size := by
  obtain ⟨z, o, m⟩ := c
  cases z <;> cases o <;> cases m <;> decide

end CallCounts

theorem Exits.ext_mem {a b : Exits} (h : ∀ place x, x ∈ a.countsAt place ↔ x ∈ b.countsAt place) : a = b := by
  have same (place : FlowNode.Place) : a.countsAt place = b.countsAt place := CallCounts.ext_mem (h place)
  obtain ⟨_, _, _, _, _, _⟩ := a
  obtain ⟨_, _, _, _, _, _⟩ := b
  rw [mk.injEq]
  exact ⟨same (.left .fallthrough), same (.left .returned), same (.left .thrown), same (.left .broken),
    same (.left .continued), same .inside⟩

namespace FlowNode

variable {f : CallCounts → Exits} {runs : Place → Nat → Prop} {c d t head : CallCounts} {x : Count} {rounds : Exits}

theorem Exact.union (h : Exact f runs) : f (c.union d) = (f c).join (f d) := by
  refine Exits.ext_mem fun place x => ?_
  rw [Exits.mem_join, h, h, h]
  simp only [CallCounts.mem_union, or_and_right, exists_or]

theorem Exact.empty (h : Exact f runs) : f .empty = {} :=
  Exits.ext_mem fun _ _ => iff_of_false (h.not_mem_of_isEmpty rfl) Exits.not_mem_default

theorem Exact.again_subset (h : Exact f runs) (below : c ⊆ d) : (f c).again ⊆ (f d).again := by
  intro x member
  obtain ⟨exit, repeats, comes⟩ := Exits.mem_again.1 member
  exact Exits.mem_again.2 ⟨exit, repeats, h.mono below comes⟩

def heads (body : CallCounts → Exits) (head : CallCounts) : List CallCounts :=
  if head.union (body head).again = head then [head]
  else head :: heads body (head.union (body head).again)
termination_by 3 - head.size
decreasing_by
  have grows := CallCounts.size_lt_size_union ‹_›
  have bounded := CallCounts.size_le (head.union (body head).again)
  exact Nat.sub_lt_sub_left (Nat.lt_of_lt_of_le grows bounded) grows

theorem heads_of_settled (same : head.union (f head).again = head) : heads f head = [head] := by
  rw [heads, if_pos same]

theorem heads_of_growing (more : head.union (f head).again ≠ head) :
    heads f head = head :: heads f (head.union (f head).again) := by
  rw [heads, if_neg more]

theorem exists_heads_eq_cons (f : CallCounts → Exits) (head : CallCounts) :
    ∃ others, heads f head = head :: others := by
  rw [heads]
  split
  · exact ⟨_, rfl⟩
  · exact ⟨_, rfl⟩

theorem settle_eq_heads :
    settle f head rounds =
      ((heads f head).getLastD head, (heads f head).foldl (fun rounds c => rounds.join (f c)) rounds) := by
  fun_induction settle f head rounds with
  | case1 head rounds round same => rw [heads_of_settled same]; rfl
  | case2 head rounds round more ih =>
    obtain ⟨others, first⟩ := exists_heads_eq_cons f (head.union (f head).again)
    rw [heads_of_growing more, List.foldl_cons, ih, List.getLastD_cons, first, List.getLastD_cons, List.getLastD_cons]

theorem length_heads_add_size_le (f : CallCounts → Exits) (head : CallCounts) :
    (heads f head).length + head.size ≤ 4 := by
  fun_induction heads f head with
  | case1 head same =>
    rw [List.length_singleton, Nat.add_comm]
    exact Nat.succ_le_succ head.size_le
  | case2 head more ih =>
    have grows := CallCounts.size_lt_size_union more
    rw [List.length_cons]
    omega

theorem length_heads_le (h : Exact f runs) : (heads f c).length ≤ 3 := by
  obtain rfl | some := c.eq_empty_or_size_pos
  · have same : CallCounts.empty.union (f .empty).again = .empty := by
      rw [h.empty]
      rfl
    rw [heads_of_settled same]
    exact Nat.le_of_ble_eq_true rfl
  · have bound := length_heads_add_size_le f c
    omega

theorem settle_subset (h : Exact f runs) (start : c ⊆ t) (closed : (f t).again ⊆ t) :
    (settle f c rounds).1 ⊆ t := fun _ member =>
  settle_induction start (fun _ below y again => closed y (h.again_subset below y again)) member

/-- The rounds of a loop are three at most, and end with the least counts that contain the first ones and are
closed under what falls through its body or continues; no counts give no exits, and joined counts the joined
exits. -/
theorem settle_least_in_three (body : FlowNode) (c : CallCounts) :
    let rounds := heads body.analyze c
    let last := (settle body.analyze c {}).1
    rounds.length ≤ 3 ∧
    settle body.analyze c {} = (rounds.getLastD c, rounds.foldl (fun exits head => exits.join (body.analyze head)) {}) ∧
    c ⊆ last ∧ (body.analyze last).fallthrough ⊆ last ∧ (body.analyze last).continued ⊆ last ∧
    (∀ t : CallCounts, c ⊆ t → (body.analyze t).fallthrough ⊆ t → (body.analyze t).continued ⊆ t → last ⊆ t) ∧
    ∀ node : FlowNode, node.analyze .empty = {} ∧
      ∀ a b : CallCounts, node.analyze (a.union b) = (node.analyze a).join (node.analyze b) := by
  have exact_body := exact_analyze body
  refine ⟨length_heads_le exact_body, settle_eq_heads, fun _ => mem_settle_of_mem, fun x through => ?_,
    fun x continued => ?_, fun t start through continued => ?_,
    fun node => ⟨(exact_analyze node).empty, fun _ _ => (exact_analyze node).union⟩⟩
  · exact settle_closed (CallCounts.mem_union.2 (.inl through))
  · exact settle_closed (CallCounts.mem_union.2 (.inr continued))
  · exact settle_subset exact_body start fun x again => (CallCounts.mem_union.1 again).elim (through x) (continued x)

end FlowNode

end TeamRoles
