import TeamRoles.Proofs.BaseCall.Analysis

/-!
Executions in which an exception may arise at any point of a `try` and stay uncaught. The analysis
lets such an exception enter a handler, but runs finally blocks on the recorded exits only. It still
covers these executions unless a finally block puts a `return`, `break` or `continue` of its own in
place of the exception.
-/

namespace TeamRoles.FlowNode

variable {u : Uncaught} {node body block : FlowNode} {nodes catches : List FlowNode} {place : Place}
  {m n i j : Nat}

/-! Every execution goes on to some exit -/

theorem Run.exists_after_node {exit : Exit} (run : Run u node (.left exit) i)
    (rest : ∃ exit j, Run u (.seq nodes) (.left exit) j) :
    ∃ exit m, i ≤ m ∧ Run u (.seq (node :: nodes)) (.left exit) m := by
  by_cases through : exit = .fallthrough
  · subst through
    obtain ⟨exit, j, rest⟩ := rest
    exact ⟨exit, i + j, Nat.le_add_right i j, .next run rest⟩
  · exact ⟨exit, i, Nat.le_refl i, .stop run (by simpa using through)⟩

theorem Run.exists_after_block {exit own : Exit}
    (pending : Run u (.try body catches none) (.left exit) i) (run : Run u block (.left own) j) :
    ∃ exit, Run u (.try body catches (some block)) (.left exit) (i + j) := by
  by_cases through : own = .fallthrough
  · subst through
    exact ⟨exit, .resume pending run⟩
  · exact ⟨own, .replace pending run (by simpa using through)⟩

theorem exists_exit (u : Uncaught) (node : FlowNode) : ∃ exit n, Run u node (.left exit) n := by
  induction node using parts_induction with
  | plain node exit plain => exact ⟨exit, 0, .plain plain⟩
  | baseCall => exact ⟨.fallthrough, 1, .call⟩
  | seq nodes ih =>
    induction nodes with
    | nil => exact ⟨.fallthrough, 0, .plain rfl⟩
    | cons node nodes ih' =>
      obtain ⟨exit, i, run⟩ := ih node List.mem_cons_self
      have rest := ih' fun other among => ih other (List.mem_cons_of_mem node among)
      obtain ⟨exit, n, -, run⟩ := run.exists_after_node rest
      exact ⟨exit, n, run⟩
  | branch alternatives ih =>
    cases alternatives with
    | nil => exact ⟨.fallthrough, 0, .plain rfl⟩
    | cons node others =>
      obtain ⟨exit, n, run⟩ := ih node List.mem_cons_self
      exact ⟨exit, n, .choose List.mem_cons_self run⟩
  | loop body => exact ⟨.fallthrough, 0, .finish body⟩
  | guarded body catches ih =>
    obtain ⟨exit, n, run⟩ := ih
    exact ⟨exit, n, .protect run⟩
  | cleanup body catches block ih ih' =>
    obtain ⟨exit, i, pending⟩ := ih
    obtain ⟨own, j, run⟩ := ih'
    obtain ⟨exit, run⟩ := pending.exists_after_block run
    exact ⟨exit, i + j, run⟩

theorem Run.exists_exit (run : Run u node place n) :
    ∃ exit m, n ≤ m ∧ Run u node (.left exit) m := by
  -- An execution that stops inside is continued behind the place where it stops.
  induction run with
  | enter node =>
    obtain ⟨exit, m, run⟩ := FlowNode.exists_exit u node
    exact ⟨exit, m, Nat.zero_le m, run⟩
  | plain at_once => exact ⟨_, 0, Nat.le_refl 0, .plain at_once⟩
  | called => exact ⟨.fallthrough, 1, Nat.le_refl 1, .call⟩
  | call => exact ⟨.fallthrough, 1, Nat.le_refl 1, .call⟩
  | next first _ _ ih =>
    obtain ⟨exit, m, le, rest⟩ := ih
    exact ⟨exit, _, Nat.add_le_add_left le _, .next first rest⟩
  | stop _ _ ih =>
    obtain ⟨exit, m, le, run⟩ := ih
    obtain ⟨exit, k, le', run⟩ := run.exists_after_node (FlowNode.exists_exit u (.seq _))
    exact ⟨exit, k, Nat.le_trans le le', run⟩
  | choose among _ ih =>
    obtain ⟨exit, m, le, run⟩ := ih
    exact ⟨exit, m, le, .choose among run⟩
  | finish body => exact ⟨.fallthrough, 0, Nat.le_refl 0, .finish body⟩
  | round again first _ _ ih =>
    obtain ⟨exit, m, le, rest⟩ := ih
    exact ⟨exit, _, Nat.add_le_add_left le _, .round again first rest⟩
  | breakOut run => exact ⟨.fallthrough, _, Nat.le_refl _, .breakOut run⟩
  | within _ _ ih =>
    obtain ⟨exit, m, le, run⟩ := ih
    cases exit with
    | fallthrough => exact ⟨.fallthrough, m, le, .round .fallthrough run (.finish _)⟩
    | continued => exact ⟨.fallthrough, m, le, .round .continued run (.finish _)⟩
    | broken => exact ⟨.fallthrough, m, le, .breakOut run⟩
    | returned => exact ⟨.returned, m, le, .within .returned run⟩
    | thrown => exact ⟨.thrown, m, le, .within .thrown run⟩
  | protect _ ih =>
    obtain ⟨exit, m, le, run⟩ := ih
    exact ⟨exit, m, le, .protect run⟩
  | handle raised among _ _ ih =>
    obtain ⟨exit, m, le, run⟩ := ih
    exact ⟨exit, _, Nat.add_le_add_left le _, .handle raised among run⟩
  | escape any raised => exact ⟨.thrown, _, Nat.le_refl _, .escape any raised⟩
  | @before _ block _ _ _ ih =>
    obtain ⟨exit, m, le, pending⟩ := ih
    obtain ⟨own, k, run⟩ := FlowNode.exists_exit u block
    obtain ⟨exit, run⟩ := pending.exists_after_block run
    exact ⟨exit, m + k, Nat.le_trans le (Nat.le_add_right m k), run⟩
  | resume pending run => exact ⟨_, _, Nat.le_refl _, .resume pending run⟩
  | replace pending _ _ _ ih =>
    obtain ⟨own, m, le, run⟩ := ih
    obtain ⟨exit, run⟩ := pending.exists_after_block run
    exact ⟨exit, _, Nat.add_le_add_left le _, run⟩

/-- The calls of the `try` up to an exception and those of the finally block come up together in an
execution without that exception: the one that goes on to an exit and then runs the block. -/
theorem Run.inside_block (raised : Run u (.try body catches none) .inside i)
    (run : Run u block .inside j) : Run u (.try body catches (some block)) .inside (i + j) := by
  obtain ⟨exit, m, le, pending⟩ := raised.exists_exit
  have later : Run u (.try body catches (some block)) .inside (m + j) :=
    .replace pending run inside_ne_fallthrough
  exact later.inside_of_le (Nat.add_le_add_right le j)

/-- The block puts no exit but an exception in place of a pending one. -/
def Resumes (block : FlowNode) : Prop :=
  ∀ exit n, Run .thrown block (.left exit) n → exit = .fallthrough ∨ exit = .thrown

/-- No finally block in the node can be left by `return`, `break` or `continue`. -/
inductive Orderly : FlowNode → Prop
  | plain {node : FlowNode} {exit : Exit} (at_once : node.plainExit? = some exit) : Orderly node
  | baseCall : Orderly .baseCall
  | seq {nodes : List FlowNode} (parts : ∀ node ∈ nodes, Orderly node) : Orderly (.seq nodes)
  | branch {alternatives : List FlowNode} (parts : ∀ node ∈ alternatives, Orderly node) :
    Orderly (.branch alternatives)
  | loop {body : FlowNode} (part : Orderly body) : Orderly (.loop body)
  | guarded {body : FlowNode} {catches : List FlowNode} (part : Orderly body)
    (handlers : ∀ handler ∈ catches, Orderly handler) : Orderly (.try body catches none)
  | cleanup {body block : FlowNode} {catches : List FlowNode}
    (part : Orderly (.try body catches none)) (last : Orderly block) (resumes : block.Resumes) :
    Orderly (.try body catches (some block))

namespace Orderly

theorem head (orderly : Orderly (.seq (node :: nodes))) : node.Orderly := by
  cases orderly with
  | plain at_once => cases at_once
  | seq parts => exact parts node List.mem_cons_self

theorem tail (orderly : Orderly (.seq (node :: nodes))) : Orderly (.seq nodes) := by
  cases orderly with
  | plain at_once => cases at_once
  | seq parts => exact .seq fun other among => parts other (List.mem_cons_of_mem node among)

theorem of_branch (orderly : Orderly (.branch nodes)) (among : node ∈ nodes) : node.Orderly := by
  cases orderly with
  | plain at_once => cases among <;> cases at_once
  | branch parts => exact parts node among

theorem of_loop (orderly : Orderly (.loop body)) : body.Orderly := by
  cases orderly with
  | plain at_once => cases at_once
  | loop part => exact part

theorem of_guarded (orderly : Orderly (.try body catches none)) :
    body.Orderly ∧ ∀ handler ∈ catches, handler.Orderly := by
  cases orderly with
  | plain at_once => cases at_once
  | guarded part handlers => exact ⟨part, handlers⟩

theorem of_cleanup (orderly : Orderly (.try body catches (some block))) :
    Orderly (.try body catches none) ∧ block.Orderly ∧ block.Resumes := by
  cases orderly with
  | plain at_once => cases at_once
  | cleanup part last resumes => exact ⟨part, last, resumes⟩

end Orderly

/-- The execution is matched by one in which only an explicit `throw` stays uncaught. Where it has left
by an exception, the other one may still be inside. -/
def Covered (node : FlowNode) (place : Place) (n : Nat) : Prop :=
  place = .left .thrown ∧ Run .thrown node .inside n ∨ Run .thrown node place n

namespace Covered

theorem inside (h : Covered node place n) : Run .thrown node .inside n := by
  obtain ⟨-, run⟩ | run := h
  · exact run
  · exact run.inside_of_le (Nat.le_refl n)

theorem run_of_ne (h : Covered node place n) (other : place ≠ .left .thrown) :
    Run .thrown node place n := by
  obtain ⟨same, -⟩ | run := h
  · exact absurd same other
  · exact run

theorem imp (h : Covered node place n)
    (at_inside : Run .thrown node .inside n → Run .thrown body .inside m)
    (at_place : Run .thrown node place n → Run .thrown body place m) : Covered body place m := by
  obtain ⟨same, run⟩ | run := h
  · exact .inl ⟨same, at_inside run⟩
  · exact .inr (at_place run)

theorem resume {exit : Exit} (pending : Covered (.try body catches none) (.left exit) i)
    (run : Covered block (.left .fallthrough) j) :
    Covered (.try body catches (some block)) (.left exit) (i + j) := by
  obtain ⟨same, raised⟩ | pending := pending
  · exact .inl ⟨same, raised.inside_block run.inside⟩
  · exact .inr (.resume pending (run.run_of_ne (by simp)))

theorem replace {exit : Exit} (pending : Covered (.try body catches none) (.left exit) i)
    (run : Covered block place j) (own : place ≠ .left .fallthrough) (resumes : block.Resumes) :
    Covered (.try body catches (some block)) place (i + j) := by
  obtain ⟨-, raised⟩ | pending := pending
  -- The block runs on an exit that the matching execution has not taken, so what is left of the
  -- match is that it is inside. That is enough, as the block itself can only throw.
  · have inside := raised.inside_block run.inside
    cases place with
    | inside => exact .inr inside
    | left other =>
      by_cases thrown : other = .thrown
      · subst thrown
        exact .inl ⟨rfl, inside⟩
      · obtain rfl | rfl := resumes other j (run.run_of_ne (by simpa using thrown))
        · exact absurd rfl own
        · exact absurd rfl thrown
  · exact run.imp (.replace pending · inside_ne_fallthrough) (.replace pending · own)

end Covered

theorem Run.covered (run : Run .any node place n) (orderly : node.Orderly) :
    Covered node place n := by
  induction run with
  | enter node => exact .inr (.enter node)
  | plain at_once => exact .inr (.plain at_once)
  | called => exact .inr .called
  | call => exact .inr .call
  | next _ _ ih ih' =>
    have first := (ih orderly.head).run_of_ne (by simp)
    exact (ih' orderly.tail).imp (.next first) (.next first)
  | stop _ short ih =>
    exact (ih orderly.head).imp (.stop · inside_ne_fallthrough) (.stop · short)
  | choose among _ ih => exact (ih (orderly.of_branch among)).imp (.choose among) (.choose among)
  | finish body => exact .inr (.finish body)
  | round again _ _ ih ih' =>
    have first := (ih orderly.of_loop).run_of_ne (by cases again <;> simp)
    exact (ih' orderly).imp (.round again first) (.round again first)
  | breakOut _ ih => exact .inr (.breakOut ((ih orderly.of_loop).run_of_ne (by simp)))
  | within shared _ ih => exact (ih orderly.of_loop).imp (.within .inside) (.within shared)
  | protect _ ih => exact (ih orderly.of_guarded.1).imp .protect .protect
  | handle _ among _ ih ih' =>
    have raised := (ih orderly.of_guarded.1).inside
    exact (ih' (orderly.of_guarded.2 _ among)).imp (.handle raised among) (.handle raised among)
  | escape _ _ ih => exact .inl ⟨rfl, (ih orderly).inside⟩
  | before _ ih => exact .inr (.before (ih orderly.of_cleanup.1).inside)
  | resume _ _ ih ih' =>
    obtain ⟨part, last, -⟩ := orderly.of_cleanup
    exact (ih part).resume (ih' last)
  | replace _ _ own ih ih' =>
    obtain ⟨part, last, resumes⟩ := orderly.of_cleanup
    exact (ih part).replace (ih' last) own resumes

theorem Run.to_any (run : Run u node place n) : Run .any node place n := by
  induction run with
  | enter node => exact .enter node
  | plain at_once => exact .plain at_once
  | called => exact .called
  | call => exact .call
  | next _ _ ih ih' => exact .next ih ih'
  | stop _ short ih => exact .stop ih short
  | choose among _ ih => exact .choose among ih
  | finish body => exact .finish body
  | round again _ _ ih ih' => exact .round again ih ih'
  | breakOut _ ih => exact .breakOut ih
  | within shared _ ih => exact .within shared ih
  | protect _ ih => exact .protect ih
  | handle _ among _ ih ih' => exact .handle ih among ih'
  | escape _ _ ih => exact .escape rfl ih
  | before _ ih => exact .before ih
  | resume _ _ ih ih' => exact .resume ih ih'
  | replace _ _ own ih ih' => exact .replace ih ih' own

theorem completes_any_iff (orderly : body.Orderly) :
    Completes .any body n ↔ Completes .thrown body n := by
  constructor
  · rintro (run | run)
    · exact .inl ((run.covered orderly).run_of_ne (by simp))
    · exact .inr ((run.covered orderly).run_of_ne (by simp))
  · exact Or.imp Run.to_any Run.to_any

theorem mem_baseCallCounts_iff_any (orderly : body.Orderly) (x : Count) :
    x ∈ body.baseCallCounts ↔ ∃ n, Completes .any body n ∧ Count.ofCalls n = x := by
  rw [mem_baseCallCounts_iff]
  constructor
  · rintro ⟨n, completes, counted⟩
    exact ⟨n, (completes_any_iff orderly).2 completes, counted⟩
  · rintro ⟨n, completes, counted⟩
    exact ⟨n, (completes_any_iff orderly).1 completes, counted⟩

/-- An exception before the first call gets through the finally block, which calls, to the handler. -/
def retried : FlowNode := .try (.try .baseCall [] (some .baseCall)) [.return] none

theorem mem_baseCallCounts_retried :
    retried.Orderly ∧ Completes .any retried 1 ∧ Count.one ∈ retried.baseCallCounts := by
  have orderly : retried.Orderly := by
    refine .guarded (.cleanup (.guarded .baseCall (by simp)) .baseCall ?_) (by simpa using .plain rfl)
    intro exit n run
    exact .inl (by simpa using (run_baseCall_iff.1 run).imp And.left And.left)
  have completes : Completes .any retried 1 := by
    have uncaught : Run .any (.try .baseCall [] none) (.left .thrown) 0 := .escape rfl (.enter _)
    have inside : Run .any (.try .baseCall [] (some .baseCall)) .inside (0 + 1) :=
      (Run.resume uncaught .call).inside_of_le (Nat.le_refl 1)
    exact .inr (.handle inside List.mem_cons_self (.plain rfl))
  exact ⟨orderly, completes, (mem_baseCallCounts_iff_any orderly .one).2 ⟨1, completes, rfl⟩⟩

/-- The exception comes before the call, and the `return` of the finally block discards it. -/
def swallowed : FlowNode := .try .baseCall [] (some .return)

theorem swallowed_not_counted :
    Completes .any swallowed 0 ∧ Count.ofCalls 0 ∉ swallowed.baseCallCounts := by
  refine ⟨.inr ?_, by decide⟩
  have uncaught : Run .any (.try .baseCall [] none) (.left .thrown) 0 := .escape rfl (.enter _)
  exact .replace uncaught (.plain rfl) (by simp)

end TeamRoles.FlowNode
