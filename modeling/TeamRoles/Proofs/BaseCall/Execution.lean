import TeamRoles.BaseCall

/-!
Executions of a callin body, told by how often the base method is called. An execution of a piece of
the body either has come to some point inside it or has left it by one of its exits. The relation is
given by rules and knows nothing of the analysis, which works with sets of counts.
-/

namespace TeamRoles

/-- The exits of a loop body after which the next round may start. -/
inductive Exit.Repeats : Exit → Prop
  | fallthrough : Repeats .fallthrough
  | continued : Repeats .continued

namespace FlowNode

inductive Place where
  | inside
  | left (exit : Exit)
  deriving DecidableEq

/-- The exception that may leave a `try` without being caught: that of an explicit `throw`, or any that
arises at some point of the `try`. A handler catches either kind. -/
inductive Uncaught where
  | thrown | any

def plainExit? : FlowNode → Option Exit
  | .stmt | .seq [] | .branch [] => some .fallthrough
  | .return => some .returned
  | .throw => some .thrown
  | .break => some .broken
  | .continue => some .continued
  | _ => none

/-- The places in a loop body that are the same for the whole loop. -/
inductive Place.Shared : Place → Prop
  | inside : Shared .inside
  | returned : Shared (.left .returned)
  | thrown : Shared (.left .thrown)

/-- Some execution of the node comes to the place and has made that many base calls on the way. -/
inductive Run (u : Uncaught) : FlowNode → Place → Nat → Prop
  | enter (node : FlowNode) : Run u node .inside 0
  | plain {node : FlowNode} {exit : Exit} (at_once : node.plainExit? = some exit) :
    Run u node (.left exit) 0
  | called : Run u .baseCall .inside 1
  | call : Run u .baseCall (.left .fallthrough) 1
  | next {node : FlowNode} {nodes : List FlowNode} {place : Place} {i j : Nat}
    (first : Run u node (.left .fallthrough) i) (rest : Run u (.seq nodes) place j) :
    Run u (.seq (node :: nodes)) place (i + j)
  | stop {node : FlowNode} {nodes : List FlowNode} {place : Place} {i : Nat}
    (first : Run u node place i) (short : place ≠ .left .fallthrough) :
    Run u (.seq (node :: nodes)) place i
  | choose {node : FlowNode} {alternatives : List FlowNode} {place : Place} {i : Nat}
    (among : node ∈ alternatives) (run : Run u node place i) : Run u (.branch alternatives) place i
  | finish (body : FlowNode) : Run u (.loop body) (.left .fallthrough) 0
  | round {body : FlowNode} {exit : Exit} {place : Place} {i j : Nat} (again : exit.Repeats)
    (first : Run u body (.left exit) i) (rest : Run u (.loop body) place j) :
    Run u (.loop body) place (i + j)
  | breakOut {body : FlowNode} {i : Nat} (run : Run u body (.left .broken) i) :
    Run u (.loop body) (.left .fallthrough) i
  | within {body : FlowNode} {place : Place} {i : Nat} (shared : place.Shared)
    (run : Run u body place i) : Run u (.loop body) place i
  | protect {body : FlowNode} {catches : List FlowNode} {place : Place} {i : Nat}
    (run : Run u body place i) : Run u (.try body catches none) place i
  /-- A handler may be entered from any point of the body. -/
  | handle {body handler : FlowNode} {catches : List FlowNode} {place : Place} {i j : Nat}
    (raised : Run u body .inside i) (among : handler ∈ catches) (run : Run u handler place j) :
    Run u (.try body catches none) place (i + j)
  | escape {body : FlowNode} {catches : List FlowNode} {i : Nat} (any : u = .any)
    (raised : Run u (.try body catches none) .inside i) :
    Run u (.try body catches none) (.left .thrown) i
  | before {body block : FlowNode} {catches : List FlowNode} {i : Nat}
    (run : Run u (.try body catches none) .inside i) :
    Run u (.try body catches (some block)) .inside i
  | resume {body block : FlowNode} {catches : List FlowNode} {exit : Exit} {i j : Nat}
    (pending : Run u (.try body catches none) (.left exit) i)
    (run : Run u block (.left .fallthrough) j) :
    Run u (.try body catches (some block)) (.left exit) (i + j)
  | replace {body block : FlowNode} {catches : List FlowNode} {exit : Exit} {place : Place}
    {i j : Nat} (pending : Run u (.try body catches none) (.left exit) i)
    (run : Run u block place j) (own : place ≠ .left .fallthrough) :
    Run u (.try body catches (some block)) place (i + j)

/-- The whole body completes or returns after that many base calls. -/
def Completes (u : Uncaught) (body : FlowNode) (calls : Nat) : Prop :=
  Run u body (.left .fallthrough) calls ∨ Run u body (.left .returned) calls

section

variable {motive : FlowNode → Prop}
    (plain : ∀ node exit, node.plainExit? = some exit → motive node) (baseCall : motive .baseCall)
    (seq : ∀ nodes, (∀ node ∈ nodes, motive node) → motive (.seq nodes))
    (branch : ∀ alternatives, (∀ node ∈ alternatives, motive node) → motive (.branch alternatives))
    (loop : ∀ body, motive body → motive (.loop body))
    (guarded : ∀ body catches, motive body → (∀ handler ∈ catches, motive handler) →
      motive (.try body catches none))
    (cleanup : ∀ body catches block, motive (.try body catches none) → motive block →
      motive (.try body catches (some block)))

include plain baseCall seq branch loop guarded cleanup

@[elab_as_elim]
theorem parts_induction : ∀ node, motive node
  | .stmt => plain .stmt .fallthrough rfl
  | .return => plain .return .returned rfl
  | .throw => plain .throw .thrown rfl
  | .break => plain .break .broken rfl
  | .continue => plain .continue .continued rfl
  | .baseCall => baseCall
  | .seq nodes => seq nodes fun node _ => parts_induction node
  | .branch alternatives => branch alternatives fun node _ => parts_induction node
  | .loop body => loop body (parts_induction body)
  | .try body catches none =>
    guarded body catches (parts_induction body) fun handler _ => parts_induction handler
  | .try body catches (some block) =>
    cleanup body catches block
      (guarded body catches (parts_induction body) fun handler _ => parts_induction handler)
      (parts_induction block)
termination_by node => sizeOf node
decreasing_by
  all_goals
    simp only [FlowNode.seq.sizeOf_spec, FlowNode.branch.sizeOf_spec, FlowNode.loop.sizeOf_spec,
      FlowNode.try.sizeOf_spec, Option.some.sizeOf_spec]
    try have smaller := List.sizeOf_lt_of_mem ‹_ ∈ _›
    omega

end

variable {u : Uncaught} {node body block : FlowNode} {nodes catches : List FlowNode} {place : Place}
  {n : Nat}

theorem inside_ne_fallthrough : Place.inside ≠ .left .fallthrough := by simp

theorem run_plain_iff {exit : Exit} (plain : node.plainExit? = some exit) :
    Run u node place n ↔ (place = .inside ∨ place = .left exit) ∧ n = 0 := by
  constructor
  · intro run
    cases run with
    | enter => simp
    | plain at_once => simp_all
    | choose among => cases among <;> cases plain
    | _ => cases plain
  · rintro ⟨rfl | rfl, rfl⟩
    · exact .enter node
    · exact .plain plain

theorem run_baseCall_iff :
    Run u .baseCall place n ↔
      place = .inside ∧ n = 0 ∨ (place = .inside ∨ place = .left .fallthrough) ∧ n = 1 := by
  constructor
  · intro run
    cases run with
    | enter => simp
    | plain at_once => cases at_once
    | called => simp
    | call => simp
  · rintro (⟨rfl, rfl⟩ | ⟨rfl | rfl, rfl⟩)
    · exact .enter _
    · exact .called
    · exact .call

theorem run_seq_cons_iff :
    Run u (.seq (node :: nodes)) place n ↔
      place ≠ .left .fallthrough ∧ Run u node place n ∨
      ∃ i j, Run u node (.left .fallthrough) i ∧ Run u (.seq nodes) place j ∧ i + j = n := by
  constructor
  · intro run
    cases run with
    | enter => exact .inl ⟨inside_ne_fallthrough, .enter node⟩
    | plain at_once => cases at_once
    | next first rest => exact .inr ⟨_, _, first, rest, rfl⟩
    | stop first short => exact .inl ⟨short, first⟩
  · rintro (⟨short, first⟩ | ⟨i, j, first, rest, rfl⟩)
    · exact .stop first short
    · exact .next first rest

theorem run_branch_iff (some_node : nodes ≠ []) :
    Run u (.branch nodes) place n ↔ ∃ node ∈ nodes, Run u node place n := by
  constructor
  · intro run
    cases run with
    | enter =>
      obtain ⟨node, among⟩ := List.exists_mem_of_ne_nil nodes some_node
      exact ⟨node, among, .enter node⟩
    | plain at_once =>
      cases nodes with
      | nil => exact absurd rfl some_node
      | cons => cases at_once
    | choose among run => exact ⟨_, among, run⟩
  · rintro ⟨node, among, run⟩
    exact .choose among run

/-- The calls of any number of rounds of a loop, each of which leads to the next one. -/
inductive Rounds (u : Uncaught) (body : FlowNode) : Nat → Prop
  | none : Rounds u body 0
  | more {exit : Exit} {i j : Nat} (again : exit.Repeats) (first : Run u body (.left exit) i)
    (rest : Rounds u body j) : Rounds u body (i + j)

/-- How the last round of a loop ends: before it starts, by `break`, or where the loop itself is. -/
inductive LastRound (u : Uncaught) (body : FlowNode) : Place → Nat → Prop
  | ended : LastRound u body (.left .fallthrough) 0
  | broken {n : Nat} (run : Run u body (.left .broken) n) : LastRound u body (.left .fallthrough) n
  | shared {place : Place} {n : Nat} (shared : place.Shared) (run : Run u body place n) :
    LastRound u body place n

theorem lastRound_iff_of_shared (shared : place.Shared) :
    LastRound u body place n ↔ Run u body place n := by
  constructor
  · intro last
    cases last with
    | ended => cases shared
    | broken => cases shared
    | shared _ run => exact run
  · exact .shared shared

theorem run_loop_iff :
    Run u (.loop body) place n ↔
      ∃ i j, Rounds u body i ∧ LastRound u body place j ∧ i + j = n := by
  constructor
  · intro run
    -- A loop runs itself again, so the induction is on the execution, for whatever node is that loop.
    generalize looped : FlowNode.loop body = node at run
    induction run with
    | enter =>
      cases looped
      exact ⟨0, 0, .none, .shared .inside (.enter body), rfl⟩
    | finish =>
      cases looped
      exact ⟨0, 0, .none, .ended, rfl⟩
    | round again first _ _ ih =>
      cases looped
      obtain ⟨j, k, rounds, last, rfl⟩ := ih rfl
      exact ⟨_ + j, k, .more again first rounds, last, Nat.add_assoc _ j k⟩
    | breakOut run =>
      cases looped
      exact ⟨0, _, .none, .broken run, Nat.zero_add _⟩
    | within shared run =>
      cases looped
      exact ⟨0, _, .none, .shared shared run, Nat.zero_add _⟩
    | plain at_once => subst looped; cases at_once
    | _ => cases looped
  · rintro ⟨i, j, rounds, last, rfl⟩
    induction rounds with
    | none =>
      rw [Nat.zero_add]
      cases last with
      | ended => exact .finish body
      | broken run => exact .breakOut run
      | shared shared run => exact .within shared run
    | more again first _ ih =>
      rw [Nat.add_assoc]
      exact .round again first ih

theorem run_guarded_iff :
    Run .thrown (.try body catches none) place n ↔
      Run .thrown body place n ∨
      ∃ handler ∈ catches, ∃ i j, Run .thrown body .inside i ∧ Run .thrown handler place j ∧
        i + j = n := by
  constructor
  · intro run
    cases run with
    | enter => exact .inl (.enter body)
    | plain at_once => cases at_once
    | protect run => exact .inl run
    | handle raised among run => exact .inr ⟨_, among, _, _, raised, run, rfl⟩
    | escape any => cases any
  · rintro (run | ⟨handler, among, i, j, raised, run, rfl⟩)
    · exact .protect run
    · exact .handle raised among run

theorem run_cleanup_iff :
    Run u (.try body catches (some block)) place n ↔
      place = .inside ∧ Run u (.try body catches none) .inside n ∨
      ∃ exit i j, Run u (.try body catches none) (.left exit) i ∧
        (place = .left exit ∧ Run u block (.left .fallthrough) j ∨
          place ≠ .left .fallthrough ∧ Run u block place j) ∧ i + j = n := by
  constructor
  · intro run
    cases run with
    | enter => exact .inl ⟨rfl, .enter _⟩
    | plain at_once => cases at_once
    | before run => exact .inl ⟨rfl, run⟩
    | resume pending run => exact .inr ⟨_, _, _, pending, .inl ⟨rfl, run⟩, rfl⟩
    | replace pending run own => exact .inr ⟨_, _, _, pending, .inr ⟨own, run⟩, rfl⟩
  · rintro (⟨rfl, run⟩ | ⟨exit, i, j, pending, ⟨rfl, run⟩ | ⟨own, run⟩, rfl⟩)
    · exact .before run
    · exact .resume pending run
    · exact .replace pending run own

theorem Run.inside_of_le (run : Run u node place n) {m : Nat} (le : m ≤ n) : Run u node .inside m := by
  -- Where two pieces run one after the other, the number comes up in the first or in the second one.
  have early_or_late {i j k : Nat} (le : k ≤ i + j) : k ≤ i ∨ ∃ l ≤ j, k = i + l := by
    by_cases early : k ≤ i
    · exact .inl early
    · exact .inr ⟨k - i, by omega, by omega⟩
  induction run generalizing m with
  | enter | plain | finish =>
    rw [Nat.le_zero.1 le]
    exact .enter _
  | called | call =>
    obtain rfl | rfl : m = 0 ∨ m = 1 := by omega
    · exact .enter _
    · exact .called
  | next first _ ih ih' =>
    obtain early | ⟨l, late, rfl⟩ := early_or_late le
    · exact .stop (ih early) inside_ne_fallthrough
    · exact .next first (ih' late)
  | stop _ _ ih => exact .stop (ih le) inside_ne_fallthrough
  | choose among _ ih => exact .choose among (ih le)
  | round again first _ ih ih' =>
    obtain early | ⟨l, late, rfl⟩ := early_or_late le
    · exact .within .inside (ih early)
    · exact .round again first (ih' late)
  | breakOut _ ih => exact .within .inside (ih le)
  | within _ _ ih => exact .within .inside (ih le)
  | protect _ ih => exact .protect (ih le)
  | handle raised among _ ih ih' =>
    obtain early | ⟨l, late, rfl⟩ := early_or_late le
    · exact .protect (ih early)
    · exact .handle raised among (ih' late)
  | escape _ _ ih => exact ih le
  | before _ ih => exact .before (ih le)
  | resume pending _ ih ih' =>
    obtain early | ⟨l, late, rfl⟩ := early_or_late le
    · exact .before (ih early)
    · exact .replace pending (ih' late) inside_ne_fallthrough
  | replace pending _ _ ih ih' =>
    obtain early | ⟨l, late, rfl⟩ := early_or_late le
    · exact .before (ih early)
    · exact .replace pending (ih' late) inside_ne_fallthrough

end FlowNode

end TeamRoles
