import TeamRoles.Proofs.BaseCall.Counts

/-!
The analysis of base calls is exact: at each place of a node it gives the counts with which some
execution is there, no more and no less. Hence the problems it reports for a body say exactly how often
the executions that complete it call the base method.
-/

namespace TeamRoles.FlowNode

variable {f g : CallCounts → Exits} {runs runs' : Place → Nat → Prop} {c head : CallCounts}
  {x : Count} {place : Place}

/-- From any counts, an analysis gives at each place the counts with which executions come there. -/
def Exact (f : CallCounts → Exits) (runs : Place → Nat → Prop) : Prop :=
  ∀ c place x, x ∈ (f c).countsAt place ↔ ∃ y ∈ c, ∃ n, runs place n ∧ y.add n = x

namespace Exact

theorem mono (h : Exact f runs) {d : CallCounts} (below : ∀ y ∈ c, y ∈ d)
    (member : x ∈ (f c).countsAt place) : x ∈ (f d).countsAt place := by
  obtain ⟨y, start, n, run, rfl⟩ := (h c place x).1 member
  exact (h d place _).2 ⟨y, below y start, n, run, rfl⟩

theorem not_mem_of_isEmpty (h : Exact f runs) (none : c.isEmpty = true) :
    x ∉ (f c).countsAt place := by
  intro member
  obtain ⟨y, start, -⟩ := (h c place x).1 member
  exact CallCounts.not_mem_of_isEmpty none start

theorem comp (h : Exact f runs) (h' : Exact g runs') {next : Place} :
    x ∈ (g ((f c).countsAt place)).countsAt next ↔
      ∃ y ∈ c, ∃ i j, runs place i ∧ runs' next j ∧ y.add (i + j) = x := by
  rw [h']
  constructor
  · rintro ⟨z, member, j, run', rfl⟩
    obtain ⟨y, start, i, run, rfl⟩ := (h c place z).1 member
    exact ⟨y, start, i, j, run, run', (Count.add_add y i j).symm⟩
  · rintro ⟨y, start, i, j, run, run', rfl⟩
    exact ⟨y.add i, (h c place _).2 ⟨y, start, i, run, rfl⟩, j, run', Count.add_add y i j⟩

end Exact

theorem analyze_plain {node : FlowNode} {exit : Exit} (plain : node.plainExit? = some exit)
    (c : CallCounts) : node.analyze c = .only exit c := by
  match node with
  | .stmt | .return | .throw | .break | .continue | .seq [] | .branch [] =>
    cases plain
    rfl

theorem exact_plain {node : FlowNode} {exit : Exit} (plain : node.plainExit? = some exit) :
    Exact node.analyze (Run .thrown node) := by
  intro c place x
  rw [analyze_plain plain, Exits.mem_only]
  simp only [run_plain_iff plain]
  constructor
  · rintro ⟨here, member⟩
    exact ⟨x, member, 0, ⟨here, rfl⟩, rfl⟩
  · rintro ⟨y, member, n, ⟨here, rfl⟩, rfl⟩
    exact ⟨here, member⟩

theorem mem_analyze_baseCall :
    x ∈ (baseCall.analyze c).countsAt place ↔
      place = .inside ∧ x ∈ c ∨ (place = .inside ∨ place = .left .fallthrough) ∧ x ∈ c.called := by
  cases place with
  | inside => simp [analyze, Exits.countsAt]
  | left exit =>
    have same : (baseCall.analyze c).countsAt (.left exit) =
        (Exits.only .fallthrough c.called).countsAt (.left exit) := by
      cases exit <;> rfl
    rw [same, Exits.mem_only]
    simp

theorem exact_baseCall : Exact baseCall.analyze (Run .thrown .baseCall) := by
  intro c place x
  simp only [mem_analyze_baseCall, CallCounts.mem_called, run_baseCall_iff]
  constructor
  · rintro (⟨rfl, member⟩ | ⟨here, y, member, rfl⟩)
    · exact ⟨x, member, 0, .inl ⟨rfl, rfl⟩, rfl⟩
    · exact ⟨y, member, 1, .inr ⟨here, rfl⟩, rfl⟩
  · rintro ⟨y, member, n, ⟨rfl, rfl⟩ | ⟨here, rfl⟩, rfl⟩
    · exact .inl ⟨rfl, member⟩
    · exact .inr ⟨here, y, member, rfl⟩

theorem Exact.inside_of_left {node : FlowNode} (h : Exact node.analyze (Run .thrown node))
    {exit : Exit} (member : x ∈ (node.analyze c).countsAt (.left exit)) :
    x ∈ (node.analyze c).countsAt .inside := by
  obtain ⟨y, start, n, run, rfl⟩ := (h c (.left exit) x).1 member
  exact (h c .inside _).2 ⟨y, start, n, run.inside_of_le (Nat.le_refl n), rfl⟩

/-- The counts at a place of a sequence that has come so far with these exits and has nodes left. -/
def Onward (exits : Exits) (nodes : List FlowNode) (place : Place) (x : Count) : Prop :=
  place ≠ .left .fallthrough ∧ x ∈ exits.countsAt place ∨
    ∃ y ∈ exits.countsAt (.left .fallthrough), ∃ n, Run .thrown (.seq nodes) place n ∧ y.add n = x

section Onward

variable {exits : Exits} {node : FlowNode} {nodes : List FlowNode}

theorem onward_nil_iff
    (through : ∀ y ∈ exits.countsAt (.left .fallthrough), y ∈ exits.countsAt .inside) :
    Onward exits [] place x ↔ x ∈ exits.countsAt place := by
  have ended : (FlowNode.seq []).plainExit? = some .fallthrough := rfl
  simp only [Onward, run_plain_iff ended]
  constructor
  · rintro (⟨-, member⟩ | ⟨y, member, n, ⟨rfl | rfl, rfl⟩, rfl⟩)
    · exact member
    · exact through y member
    · exact member
  · intro member
    by_cases here : place = .left .fallthrough
    · subst here
      exact .inr ⟨x, member, 0, ⟨.inr rfl, rfl⟩, rfl⟩
    · exact .inl ⟨here, member⟩

theorem onward_iff_of_isEmpty (none : exits.fallthrough.isEmpty = true) :
    Onward exits nodes place x ↔ x ∈ exits.countsAt place := by
  have unreached (y : Count) : y ∉ exits.countsAt (.left .fallthrough) :=
    CallCounts.not_mem_of_isEmpty none
  constructor
  · rintro (⟨-, member⟩ | ⟨y, member, -⟩)
    · exact member
    · exact absurd member (unreached y)
  · intro member
    refine .inl ⟨?_, member⟩
    rintro rfl
    exact unreached x member

theorem mem_closed_join_analyze {y : Count} {d : CallCounts} :
    y ∈ (exits.closed.join (node.analyze d)).countsAt place ↔
      place ≠ .left .fallthrough ∧ y ∈ exits.countsAt place ∨ y ∈ (node.analyze d).countsAt place := by
  rw [Exits.mem_join, Exits.mem_closed]

theorem onward_cons_iff (exact_node : Exact node.analyze (Run .thrown node)) :
    Onward exits (node :: nodes) place x ↔
      Onward (exits.closed.join (node.analyze exits.fallthrough)) nodes place x := by
  simp only [Onward, mem_closed_join_analyze, run_seq_cons_iff, exact_node exits.fallthrough]
  constructor
  · rintro (⟨short, member⟩ | ⟨y, member, n, ⟨short, run⟩ | ⟨i, j, run, rest, rfl⟩, rfl⟩)
    · exact .inl ⟨short, .inl ⟨short, member⟩⟩
    · exact .inl ⟨short, .inr ⟨y, member, n, run, rfl⟩⟩
    · exact .inr ⟨y.add i, .inr ⟨y, member, i, run, rfl⟩, j, rest, Count.add_add y i j⟩
  · rintro (⟨short, ⟨-, member⟩ | ⟨y, member, n, run, rfl⟩⟩ |
      ⟨_, ⟨short, -⟩ | ⟨y, member, i, run, rfl⟩, j, rest, rfl⟩)
    · exact .inl ⟨short, member⟩
    · exact .inr ⟨y, member, n, .inl ⟨short, run⟩, rfl⟩
    · exact absurd rfl short
    · exact .inr ⟨y, member, i + j, .inr ⟨i, j, run, rest, rfl⟩, (Count.add_add y i j).symm⟩

theorem mem_analyzeSeq_iff (exact_nodes : ∀ node ∈ nodes, Exact node.analyze (Run .thrown node))
    (through : ∀ y ∈ exits.countsAt (.left .fallthrough), y ∈ exits.countsAt .inside) :
    x ∈ (analyzeSeq nodes exits).countsAt place ↔ Onward exits nodes place x := by
  induction nodes generalizing exits with
  | nil => rw [analyzeSeq, onward_nil_iff through]
  | cons node nodes ih =>
    rw [analyzeSeq]
    split
    case isTrue none => rw [onward_iff_of_isEmpty none]
    case isFalse =>
      have exact_node := exact_nodes node List.mem_cons_self
      rw [onward_cons_iff exact_node]
      apply ih (fun other among => exact_nodes other (List.mem_cons_of_mem node among))
      intro y member
      obtain ⟨short, -⟩ | member := mem_closed_join_analyze.1 member
      · exact absurd rfl short
      · exact mem_closed_join_analyze.2 (.inr (exact_node.inside_of_left member))

theorem exact_seq (exact_nodes : ∀ node ∈ nodes, Exact node.analyze (Run .thrown node)) :
    Exact (seq nodes).analyze (Run .thrown (.seq nodes)) := by
  intro c place x
  have entered {y : Count} :
      y ∈ (Exits.only .fallthrough c).countsAt (.left .fallthrough) ↔ y ∈ c := by
    simp [Exits.mem_only]
  have through (y : Count) (member : y ∈ (Exits.only .fallthrough c).countsAt (.left .fallthrough)) :
      y ∈ (Exits.only .fallthrough c).countsAt .inside := by
    simpa [Exits.mem_only] using member
  rw [analyze, mem_analyzeSeq_iff exact_nodes through]
  simp only [Onward, entered]
  constructor
  · rintro (⟨short, member⟩ | later)
    · simp only [Exits.mem_only, short, or_false] at member
      obtain ⟨rfl, member⟩ := member
      exact ⟨x, member, 0, .enter _, rfl⟩
    · exact later
  · intro later
    exact .inr later

end Onward

theorem mem_joinAll {nodes : List FlowNode} {exits : Exits} :
    x ∈ (joinAll exits nodes c).countsAt place ↔
      x ∈ exits.countsAt place ∨ ∃ node ∈ nodes, x ∈ (node.analyze c).countsAt place := by
  induction nodes generalizing exits with
  | nil => simp [joinAll]
  | cons node nodes ih => simp [joinAll, ih, or_assoc]

theorem exact_branch {alternatives : List FlowNode}
    (exact_nodes : ∀ node ∈ alternatives, Exact node.analyze (Run .thrown node)) :
    Exact (branch alternatives).analyze (Run .thrown (.branch alternatives)) := by
  cases alternatives with
  | nil => exact exact_plain rfl
  | cons first others =>
    intro c place x
    simp only [analyze, List.isEmpty_cons, Bool.false_eq_true, if_false, mem_joinAll,
      run_branch_iff (List.cons_ne_nil first others), Exits.not_mem_default, false_or]
    constructor
    · rintro ⟨node, among, member⟩
      obtain ⟨y, start, n, run, rfl⟩ := (exact_nodes node among c place x).1 member
      exact ⟨y, start, n, ⟨node, among, run⟩, rfl⟩
    · rintro ⟨y, start, n, ⟨node, among, run⟩, rfl⟩
      exact ⟨node, among, (exact_nodes node among c place _).2 ⟨y, start, n, run, rfl⟩⟩

section Settle

variable {rounds : Exits}

theorem mem_settle_of_mem (member : x ∈ head) : x ∈ (settle f head rounds).1 := by
  fun_induction settle f head rounds with
  | case1 => exact member
  | case2 _ _ _ _ ih => exact ih (CallCounts.mem_union.2 (.inl member))

theorem settle_closed (member : x ∈ (f (settle f head rounds).1).again) :
    x ∈ (settle f head rounds).1 := by
  fun_induction settle f head rounds with
  | case1 head rounds round same => exact CallCounts.mem_of_union_eq same member
  | case2 _ _ _ _ ih => exact ih member

theorem settle_induction {motive : Count → Prop} (start : ∀ y ∈ head, motive y)
    (step : ∀ d, (∀ y ∈ d, motive y) → ∀ y ∈ (f d).again, motive y)
    (member : x ∈ (settle f head rounds).1) : motive x := by
  fun_induction settle f head rounds with
  | case1 => exact start x member
  | case2 head rounds round _ ih =>
    apply ih _ member
    intro y joined
    obtain before | now := CallCounts.mem_union.1 joined
    · exact start y before
    · exact step head start y now

theorem mem_settle_rounds_iff (h : Exact f runs) :
    x ∈ (settle f head rounds).2.countsAt place ↔
      x ∈ rounds.countsAt place ∨ x ∈ (f (settle f head rounds).1).countsAt place := by
  fun_induction settle f head rounds with
  | case1 => exact Exits.mem_join
  | case2 head rounds round _ ih =>
    have below : x ∈ (f head).countsAt place →
        x ∈ (f (settle f (head.union (f head).again) (rounds.join (f head))).1).countsAt place := by
      apply h.mono
      intro y member
      exact mem_settle_of_mem (CallCounts.mem_union.2 (.inl member))
    rw [ih, Exits.mem_join, or_assoc, or_iff_right_of_imp below]

end Settle

theorem Rounds.trans {u : Uncaught} {body : FlowNode} {i j : Nat} (first : Rounds u body i)
    (second : Rounds u body j) : Rounds u body (i + j) := by
  induction first with
  | none => rwa [Nat.zero_add]
  | more again run _ ih =>
    rw [Nat.add_assoc]
    exact .more again run ih

theorem mem_settle_iff {body : FlowNode} (h : Exact body.analyze (Run .thrown body))
    {rounds : Exits} :
    x ∈ (settle body.analyze head rounds).1 ↔
      ∃ y ∈ head, ∃ n, Rounds .thrown body n ∧ y.add n = x := by
  constructor
  · intro member
    apply settle_induction ?_ ?_ member
    · intro y start
      exact ⟨y, start, 0, .none, rfl⟩
    · intro d reached y again
      obtain ⟨exit, repeats, comes⟩ := Exits.mem_again.1 again
      obtain ⟨z, among, i, run, rfl⟩ := (h d (.left exit) y).1 comes
      obtain ⟨y, start, n, before, rfl⟩ := reached z among
      have round : Rounds .thrown body (i + 0) := .more repeats run .none
      exact ⟨y, start, n + i, before.trans round, (Count.add_add y n i).symm⟩
  · rintro ⟨y, start, n, before, rfl⟩
    have member : y ∈ (settle body.analyze head rounds).1 := mem_settle_of_mem start
    clear start
    induction before generalizing y with
    | none => exact member
    | @more exit i j repeats run _ ih =>
      rw [← Count.add_add]
      apply ih
      apply settle_closed
      exact Exits.mem_again.2 ⟨exit, repeats, (h _ _ _).2 ⟨y, member, i, run, rfl⟩⟩

theorem mem_analyze_loop_iff {body : FlowNode} (h : Exact body.analyze (Run .thrown body)) :
    x ∈ ((loop body).analyze c).countsAt place ↔
      ∃ y ∈ (settle body.analyze c {}).1, ∃ n, LastRound .thrown body place n ∧ y.add n = x := by
  have within (p : Place) : x ∈ (settle body.analyze c {}).2.countsAt p ↔
      ∃ y ∈ (settle body.analyze c {}).1, ∃ n, Run .thrown body p n ∧ y.add n = x := by
    rw [mem_settle_rounds_iff h, h]
    simp only [Exits.not_mem_default, false_or]
  rw [analyze]
  cases place with
  | inside =>
    simp only [lastRound_iff_of_shared .inside]
    refine CallCounts.mem_union.trans ((or_congr_left (within .inside)).trans (or_iff_left_of_imp ?_))
    intro start
    exact ⟨x, mem_settle_of_mem start, 0, .enter body, rfl⟩
  | left exit =>
    cases exit with
    | fallthrough =>
      refine CallCounts.mem_union.trans ((or_congr_right (within (.left .broken))).trans ?_)
      constructor
      · rintro (member | ⟨y, member, n, run, rfl⟩)
        · exact ⟨x, member, 0, .ended, rfl⟩
        · exact ⟨y, member, n, .broken run, rfl⟩
      · rintro ⟨y, member, n, last, rfl⟩
        cases last with
        | ended => exact .inl member
        | broken run => exact .inr ⟨y, member, n, run, rfl⟩
        | shared shared => cases shared
    | returned =>
      simp only [lastRound_iff_of_shared .returned]
      exact within (.left .returned)
    | thrown =>
      simp only [lastRound_iff_of_shared .thrown]
      exact within (.left .thrown)
    | broken | continued =>
      -- The loop itself is never left by an exit that it catches.
      refine iff_of_false CallCounts.not_mem_empty ?_
      rintro ⟨y, -, n, last, -⟩
      cases last with
      | shared shared => cases shared

theorem exact_loop {body : FlowNode} (h : Exact body.analyze (Run .thrown body)) :
    Exact (loop body).analyze (Run .thrown (.loop body)) := by
  intro c place x
  simp only [mem_analyze_loop_iff h, mem_settle_iff h, run_loop_iff]
  constructor
  · rintro ⟨_, ⟨y, start, i, rounds, rfl⟩, j, last, rfl⟩
    exact ⟨y, start, i + j, ⟨i, j, rounds, last, rfl⟩, (Count.add_add y i j).symm⟩
  · rintro ⟨y, start, _, ⟨i, j, rounds, last, rfl⟩, rfl⟩
    exact ⟨y.add i, ⟨y, start, i, rounds, rfl⟩, j, last, Count.add_add y i j⟩

theorem exact_guarded {body : FlowNode} {catches : List FlowNode}
    (exact_body : Exact body.analyze (Run .thrown body))
    (exact_handlers : ∀ handler ∈ catches, Exact handler.analyze (Run .thrown handler)) :
    Exact (FlowNode.try body catches none).analyze (Run .thrown (.try body catches none)) := by
  intro c place x
  have analyzed : x ∈ ((FlowNode.try body catches none).analyze c).countsAt place ↔
      x ∈ (body.analyze c).countsAt place ∨ ∃ handler ∈ catches,
        x ∈ (handler.analyze ((body.analyze c).countsAt .inside)).countsAt place := by
    rw [analyze, analyzeFinally, mem_joinAll]
    rfl
  simp only [analyzed, run_guarded_iff]
  constructor
  · rintro (member | ⟨handler, among, member⟩)
    · obtain ⟨y, start, n, run, rfl⟩ := (exact_body c place x).1 member
      exact ⟨y, start, n, .inl run, rfl⟩
    · obtain ⟨y, start, i, j, raised, run, rfl⟩ :=
        (exact_body.comp (exact_handlers handler among)).1 member
      exact ⟨y, start, i + j, .inr ⟨handler, among, i, j, raised, run, rfl⟩, rfl⟩
  · rintro ⟨y, start, n, run | ⟨handler, among, i, j, raised, run, rfl⟩, rfl⟩
    · exact .inl ((exact_body c place _).2 ⟨y, start, n, run, rfl⟩)
    · refine .inr ⟨handler, among, ?_⟩
      exact (exact_body.comp (exact_handlers handler among)).2 ⟨y, start, i, j, raised, run, rfl⟩

/-- Where a finally block leads that runs on a pending exit. -/
def AfterFinally (f : CallCounts → Exits) (pending : Exits) (exit : Exit) (place : Place)
    (x : Count) : Prop :=
  place = .left exit ∧ x ∈ (f (pending.countsAt (.left exit))).countsAt (.left .fallthrough) ∨
    place ≠ .left .fallthrough ∧ x ∈ (f (pending.countsAt (.left exit))).countsAt place

/-- A finally block runs on one pending exit and adds what it leads to. -/
def finallyStep (f : CallCounts → Exits) (pending out : Exits) (exit : Exit) : Exits :=
  if (pending.counts exit).isEmpty then out
  else (out.join (f (pending.counts exit)).closed).add exit (f (pending.counts exit)).fallthrough

theorem throughFinally_eq (f : CallCounts → Exits) (pending : Exits) :
    throughFinally f pending =
      Exit.all.foldl (finallyStep f pending) { reachable := pending.reachable } := rfl

section Finally

variable {pending : Exits}

theorem mem_finallyStep_iff (h : Exact f runs) {out : Exits} {exit : Exit} :
    x ∈ (finallyStep f pending out exit).countsAt place ↔
      x ∈ out.countsAt place ∨ AfterFinally f pending exit place x := by
  unfold finallyStep
  split
  case isTrue none =>
    refine (or_iff_left ?_).symm
    rintro (⟨-, member⟩ | ⟨-, member⟩)
    · exact h.not_mem_of_isEmpty none member
    · exact h.not_mem_of_isEmpty none member
  case isFalse =>
    rw [Exits.mem_add, Exits.mem_join, Exits.mem_closed, or_assoc]
    exact or_congr_right or_comm

theorem mem_foldl_finallyStep_iff (h : Exact f runs) {exits : List Exit} {out : Exits} :
    x ∈ (exits.foldl (finallyStep f pending) out).countsAt place ↔
      x ∈ out.countsAt place ∨ ∃ exit ∈ exits, AfterFinally f pending exit place x := by
  induction exits generalizing out with
  | nil => simp
  | cons exit exits ih => simp [ih, mem_finallyStep_iff h, or_assoc]

theorem mem_throughFinally_iff (h : Exact f runs) :
    x ∈ (throughFinally f pending).countsAt place ↔
      place = .inside ∧ x ∈ pending.countsAt .inside ∨
      ∃ exit, AfterFinally f pending exit place x := by
  have start : x ∈ ({ reachable := pending.reachable } : Exits).countsAt place ↔
      place = .inside ∧ x ∈ pending.countsAt .inside := by
    cases place with
    | inside => simp [Exits.countsAt]
    | left exit => cases exit <;> simp [Exits.countsAt, Exits.counts]
  have listed (exit : Exit) : exit ∈ Exit.all := by cases exit <;> decide
  simp only [throughFinally_eq, mem_foldl_finallyStep_iff h, start, listed, true_and]

end Finally

theorem exact_cleanup {body block : FlowNode} {catches : List FlowNode}
    (exact_guarded :
      Exact (FlowNode.try body catches none).analyze (Run .thrown (.try body catches none)))
    (exact_block : Exact block.analyze (Run .thrown block)) :
    Exact (FlowNode.try body catches (some block)).analyze
      (Run .thrown (.try body catches (some block))) := by
  intro c place x
  have analyzed : (FlowNode.try body catches (some block)).analyze c =
      throughFinally block.analyze ((FlowNode.try body catches none).analyze c) := by
    rw [analyze, analyze, analyzeFinally, analyzeFinally]
  rw [analyzed, mem_throughFinally_iff exact_block, exact_guarded]
  simp only [AfterFinally, run_cleanup_iff, exact_guarded.comp exact_block]
  constructor
  · rintro (⟨rfl, y, start, n, run, rfl⟩ | ⟨exit, ⟨rfl, y, start, i, j, pending, run, rfl⟩ |
      ⟨own, y, start, i, j, pending, run, rfl⟩⟩)
    · exact ⟨y, start, n, .inl ⟨rfl, run⟩, rfl⟩
    · exact ⟨y, start, i + j, .inr ⟨exit, i, j, pending, .inl ⟨rfl, run⟩, rfl⟩, rfl⟩
    · exact ⟨y, start, i + j, .inr ⟨exit, i, j, pending, .inr ⟨own, run⟩, rfl⟩, rfl⟩
  · rintro ⟨y, start, n, ⟨rfl, run⟩ | ⟨exit, i, j, pending, ⟨rfl, run⟩ | ⟨own, run⟩, rfl⟩, rfl⟩
    · exact .inl ⟨rfl, y, start, n, run, rfl⟩
    · exact .inr ⟨exit, .inl ⟨rfl, y, start, i, j, pending, run, rfl⟩⟩
    · exact .inr ⟨exit, .inr ⟨own, y, start, i, j, pending, run, rfl⟩⟩

theorem exact_analyze (node : FlowNode) : Exact node.analyze (Run .thrown node) := by
  induction node using parts_induction with
  | plain node exit plain => exact exact_plain plain
  | baseCall => exact exact_baseCall
  | seq nodes ih => exact exact_seq ih
  | branch alternatives ih => exact exact_branch ih
  | loop body ih => exact exact_loop ih
  | guarded body catches ih ih' => exact exact_guarded ih ih'
  | cleanup body catches block ih ih' => exact exact_cleanup ih ih'

theorem mem_baseCallCounts_iff {body : FlowNode} :
    x ∈ body.baseCallCounts ↔ ∃ n, Completes .thrown body n ∧ Count.ofCalls n = x := by
  have exits := exact_analyze body .start
  have counted : x ∈ body.baseCallCounts ↔
      x ∈ (body.analyze .start).countsAt (.left .fallthrough) ∨
      x ∈ (body.analyze .start).countsAt (.left .returned) := CallCounts.mem_union
  rw [counted, exits, exits]
  simp only [CallCounts.mem_start, exists_eq_left, Completes, or_and_right, exists_or]
  rfl

section

variable {body : FlowNode} {p : Count → Prop}

theorem exists_mem_baseCallCounts :
    (∃ x, x ∈ body.baseCallCounts) ↔ ∃ n, Completes .thrown body n := by
  simp only [mem_baseCallCounts_iff]
  constructor
  · rintro ⟨x, n, completes, -⟩
    exact ⟨n, completes⟩
  · rintro ⟨n, completes⟩
    exact ⟨_, n, completes, rfl⟩

theorem exists_mem_baseCallCounts_and :
    (∃ x ∈ body.baseCallCounts, p x) ↔ ∃ n, Completes .thrown body n ∧ p (Count.ofCalls n) := by
  simp only [mem_baseCallCounts_iff]
  constructor
  · rintro ⟨x, ⟨n, completes, rfl⟩, holds⟩
    exact ⟨n, completes, holds⟩
  · rintro ⟨n, completes, holds⟩
    exact ⟨_, ⟨n, completes, rfl⟩, holds⟩

theorem forall_mem_baseCallCounts :
    (∀ x ∈ body.baseCallCounts, p x) ↔ ∀ n, Completes .thrown body n → p (Count.ofCalls n) := by
  simp only [mem_baseCallCounts_iff]
  constructor
  · intro h n completes
    exact h _ ⟨n, completes, rfl⟩
  · rintro h x ⟨n, completes, rfl⟩
    exact h n completes

end

theorem problems_exact (body : FlowNode) :
    (.definitelyMissingBaseCall ∈ body.baseCallCounts.problems ↔
      (∃ n, Completes .thrown body n) ∧ ∀ n, Completes .thrown body n → n = 0) ∧
    (.potentiallyMissingBaseCall ∈ body.baseCallCounts.problems ↔
      Completes .thrown body 0 ∧ ∃ n, Completes .thrown body n ∧ 1 ≤ n) ∧
    (.definitelyDuplicateBaseCall ∈ body.baseCallCounts.problems ↔
      (∃ n, Completes .thrown body n) ∧ ∀ n, Completes .thrown body n → 2 ≤ n) ∧
    (.potentiallyDuplicateBaseCall ∈ body.baseCallCounts.problems ↔
      (∃ n, Completes .thrown body n ∧ 2 ≤ n) ∧ ∃ n, Completes .thrown body n ∧ n < 2) := by
  obtain ⟨missing, maybeMissing, duplicate, maybeDuplicate⟩ := body.baseCallCounts.mem_problems_iff
  refine ⟨missing.trans ?_, maybeMissing.trans ?_, duplicate.trans ?_, maybeDuplicate.trans ?_⟩
  · simp only [exists_mem_baseCallCounts, forall_mem_baseCallCounts, Count.ofCalls_eq_zero_iff]
  · rw [exists_mem_baseCallCounts_and, mem_baseCallCounts_iff]
    simp only [Count.ofCalls_eq_zero_iff, exists_eq_right, ne_eq, Nat.one_le_iff_ne_zero]
  · simp only [exists_mem_baseCallCounts, forall_mem_baseCallCounts, Count.ofCalls_eq_many_iff]
  · rw [exists_mem_baseCallCounts_and, mem_baseCallCounts_iff]
    simp only [Count.ofCalls_eq_many_iff, ne_eq, Nat.not_le]

end TeamRoles.FlowNode
