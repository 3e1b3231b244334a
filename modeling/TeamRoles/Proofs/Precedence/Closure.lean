import Mathlib.Data.Finset.Card
import Mathlib.Logic.Relation
import TeamRoles.Proofs.Precedence.Graph

/-!
Reachability in a table of successors. The closure of a table has, for every node, the nodes that a path
of one or more edges leads to, and stays right when an edge is added. So a default is added exactly where
two nodes are not ordered by then, and no default closes a cycle.
-/

namespace TeamRoles.Precedence

open Relation

section Relations

variable {α : Type} {R : α → α → Prop} {a b x y : α}

theorem transGen_or_pair : TransGen (fun x y => R x y ∨ x = a ∧ y = b) x y ↔
    TransGen R x y ∨ ReflTransGen R x a ∧ ReflTransGen R b y := by
  constructor
  · intro way
    induction way with
    | single edge =>
      rcases edge with old | ⟨rfl, rfl⟩
      · exact .inl (.single old)
      · exact .inr ⟨.refl, .refl⟩
    | tail _ edge ih =>
      rcases edge with old | ⟨rfl, rfl⟩
      · exact ih.imp (·.tail old) fun ⟨before, behind⟩ => ⟨before, behind.tail old⟩
      · exact .inr ⟨ih.elim TransGen.to_reflTransGen And.left, .refl⟩
  · have old : R ≤ fun u v => R u v ∨ u = a ∧ v = b := fun _ _ => .inl
    rintro (way | ⟨before, behind⟩)
    · exact TransGen.mono old _ _ way
    · apply TransGen.trans_right (ReflTransGen.mono old _ _ before)
      apply TransGen.trans_left (.single (.inr ⟨rfl, rfl⟩))
      exact ReflTransGen.mono old _ _ behind

end Relations

variable {α : Type} [DecidableEq α]

theorem addAll_of_subset {set more : List α} (known : more ⊆ set) : addAll set more = set := by
  induction more with
  | nil => rfl
  | cons b more ih =>
    obtain ⟨first, rest⟩ := List.cons_subset.1 known
    rw [addAll_cons, if_pos first, ih rest]

namespace Successors

variable {s : Successors α} {nodes seen : List α} {steps : Nat} {a b x y : α}

def Next (s : Successors α) (a b : α) : Prop := b ∈ s.of a

theorem exists_of_mem_search {stack : List α} (found : x ∈ s.search seen stack) :
    x ∈ seen ∨ ∃ y ∈ stack, ReflTransGen s.Next y x := by
  fun_induction search s seen stack with
  | case1 seen => exact .inl found
  | case2 seen y stack known ih =>
    exact (ih found).imp_right fun ⟨z, waits, way⟩ => ⟨z, List.mem_cons_of_mem y waits, way⟩
  | case3 seen y stack new ih =>
    rcases ih found with known | ⟨z, waits, way⟩
    · rcases List.mem_cons.1 known with rfl | old
      · exact .inr ⟨x, List.mem_cons_self, .refl⟩
      · exact .inl old
    · rcases List.mem_append.1 waits with edge | old
      · exact .inr ⟨y, List.mem_cons_self, .head edge way⟩
      · exact .inr ⟨z, List.mem_cons_of_mem y old, way⟩

theorem subset_search {stack : List α} : seen ⊆ s.search seen stack ∧ stack ⊆ s.search seen stack := by
  fun_induction search s seen stack with
  | case1 seen => exact ⟨List.Subset.refl _, List.nil_subset _⟩
  | case2 seen y stack known ih => exact ⟨ih.1, List.cons_subset.2 ⟨ih.1 known, ih.2⟩⟩
  | case3 seen y stack new ih =>
    obtain ⟨here, old⟩ := List.cons_subset.1 ih.1
    exact ⟨old, List.cons_subset.2 ⟨here, fun x waits => ih.2 (List.mem_append_right _ waits)⟩⟩

theorem closed_search {stack : List α} (closed : ∀ y ∈ seen, ∀ x ∈ s.of y, x ∈ seen ∨ x ∈ stack) :
    ∀ y ∈ s.search seen stack, s.of y ⊆ s.search seen stack := by
  fun_induction search s seen stack with
  | case1 seen => exact fun y known x edge => (closed y known x edge).resolve_right List.not_mem_nil
  | case2 seen z stack known ih =>
    refine ih fun y old x edge => ?_
    rcases closed y old x edge with met | waits
    · exact .inl met
    · rcases List.mem_cons.1 waits with rfl | waits
      · exact .inl known
      · exact .inr waits
  | case3 seen z stack new ih =>
    refine ih fun y met x edge => ?_
    rcases List.mem_cons.1 met with rfl | old
    · exact .inr (List.mem_append_left _ edge)
    · rcases closed y old x edge with known | waits
      · exact .inl (List.mem_cons_of_mem z known)
      · rcases List.mem_cons.1 waits with rfl | waits
        · exact .inl List.mem_cons_self
        · exact .inr (List.mem_append_right _ waits)

theorem mem_search {stack : List α} : x ∈ s.search [] stack ↔ ∃ y ∈ stack, ReflTransGen s.Next y x := by
  constructor
  · exact fun found => (exists_of_mem_search found).resolve_left List.not_mem_nil
  · rintro ⟨y, waits, way⟩
    induction way with
    | refl => exact subset_search.2 waits
    | tail _ edge ih => exact closed_search (List.forall_mem_nil _) _ ih edge

theorem of_closure : s.closure.of a = s.search [] (s.of a) := by
  have found : s.closure.lookup a = (s.lookup a).map (s.search []) :=
    lookup_map (f := fun _ next => s.search [] next)
  simp only [of, found]
  cases s.lookup a with
  | none => simp [search]
  | some next => rfl

theorem mem_of_closure : b ∈ s.closure.of a ↔ TransGen s.Next a b := by
  rw [of_closure, mem_search, TransGen.head'_iff]
  rfl

/-- What is reached from `seen` in at most `steps` further steps. -/
def reachFrom (s : Successors α) : Nat → List α → List α
  | 0, seen => seen
  | steps + 1, seen => s.reachFrom steps (addAll seen (seen.flatMap s.of))

theorem exists_of_mem_reachFrom (h : x ∈ s.reachFrom steps seen) :
    ∃ y ∈ seen, ReflTransGen s.Next y x := by
  induction steps generalizing seen with
  | zero => exact ⟨x, h, .refl⟩
  | succ steps ih =>
    obtain ⟨y, known, way⟩ := ih h
    rcases mem_addAll.1 known with old | new
    · exact ⟨y, old, way⟩
    · obtain ⟨z, old, edge⟩ := List.mem_flatMap.1 new
      exact ⟨z, old, .head edge way⟩

theorem subset_reachFrom : seen ⊆ s.reachFrom steps seen := by
  induction steps generalizing seen with
  | zero => exact List.Subset.refl _
  | succ steps ih =>
    intro x known
    exact ih (mem_addAll.2 (.inl known))

theorem reachFrom_of_closed (closed : seen.flatMap s.of ⊆ seen) : s.reachFrom steps seen = seen := by
  induction steps with
  | zero => rfl
  | succ steps ih => rw [reachFrom, addAll_of_subset closed, ih]

theorem closed_reachFrom (onNodes : s.Over nodes)
    (enough : (nodes.toFinset \ seen.toFinset).card ≤ steps) :
    (s.reachFrom steps seen).flatMap s.of ⊆ s.reachFrom steps seen := by
  induction steps generalizing seen with
  | zero =>
    intro x new
    obtain ⟨y, -, edge⟩ := List.mem_flatMap.1 new
    have all : nodes.toFinset ⊆ seen.toFinset := by
      rwa [Nat.le_zero, Finset.card_eq_zero, Finset.sdiff_eq_empty_iff_subset] at enough
    exact List.mem_toFinset.1 (all (List.mem_toFinset.2 (onNodes.closed y edge)))
  | succ steps ih =>
    by_cases closed : seen.flatMap s.of ⊆ seen
    · rwa [reachFrom_of_closed closed]
    · obtain ⟨x, new, unknown⟩ : ∃ x ∈ seen.flatMap s.of, x ∉ seen := by
        simpa only [List.subset_def, not_forall, exists_prop] using closed
      obtain ⟨y, -, edge⟩ := List.mem_flatMap.1 new
      apply ih
      -- One of the nodes that were missing has been found.
      have fewer : nodes.toFinset \ (addAll seen (seen.flatMap s.of)).toFinset ⊂
          nodes.toFinset \ seen.toFinset := by
        refine Finset.ssubset_iff_subset_ne.2 ⟨?_, fun same => ?_⟩
        · intro z
          simp +contextual [mem_addAll]
        · have missing : x ∈ nodes.toFinset \ seen.toFinset := by
            simp [onNodes.closed y edge, unknown]
          rw [← same] at missing
          simp only [Finset.mem_sdiff, List.mem_toFinset, mem_addAll] at missing
          exact missing.2 (.inr new)
      have := Finset.card_lt_card fewer
      omega

theorem mem_reachFrom_iff (onNodes : s.Over nodes) (enough : nodes.length ≤ steps) :
    b ∈ s.reachFrom steps (s.of a) ↔ b ∈ s.closure.of a := by
  rw [mem_of_closure, TransGen.head'_iff]
  constructor
  · intro found
    obtain ⟨c, edge, way⟩ := exists_of_mem_reachFrom found
    exact ⟨c, edge, way⟩
  · have closed : (s.reachFrom steps (s.of a)).flatMap s.of ⊆ s.reachFrom steps (s.of a) := by
      apply closed_reachFrom onNodes
      calc (nodes.toFinset \ (s.of a).toFinset).card
        _ ≤ nodes.toFinset.card := Finset.card_le_card Finset.sdiff_subset
        _ ≤ nodes.length := nodes.toFinset_card_le
        _ ≤ steps := enough
    rintro ⟨c, edge, way⟩
    induction way with
    | refl => exact subset_reachFrom edge
    | tail _ next ih => exact closed (List.mem_flatMap.2 ⟨_, ih, next⟩)

theorem mem_extendClosure : y ∈ (s.extendClosure a b).of x ↔ y ∈ s.of x ∨
    x ∈ s.map Prod.fst ∧ (x = a ∨ a ∈ s.of x) ∧ (y = b ∨ y ∈ s.of b) := by
  have found : (s.extendClosure a b).lookup x = (s.lookup x).map fun seen =>
      if x = a ∨ a ∈ seen then addAll seen (addAll (s.of b) [b]) else seen :=
    lookup_map (f := fun x seen => if x = a ∨ a ∈ seen then addAll seen (addAll (s.of b) [b]) else seen)
  have here : s.of x = (s.lookup x).getD [] := rfl
  rw [mem_keys, here, of, found]
  cases s.lookup x with
  | none => simp
  | some seen =>
    by_cases before : x = a ∨ a ∈ seen
    · simp [before, mem_addAll, or_comm]
    · simp [before]

theorem mem_keys_of_mem (behind : b ∈ s.of a) : a ∈ s.map Prod.fst := by
  rw [mem_keys]
  rw [of] at behind
  cases found : s.lookup a with
  | none => simp [found] at behind
  | some next => rfl

theorem next_insert (isNode : a ∈ s.map Prod.fst) :
    (s.insert a b).Next = fun x y => s.Next x y ∨ x = a ∧ y = b := by
  funext x y
  apply propext
  simp only [Next, mem_of_insert]
  grind

end Successors

section Defaults

variable {α : Type} {together R : α → α → Prop} {nodes : List α} {a b : α}

def IsOpen (together R : α → α → Prop) (a b : α) : Prop :=
  together a b ∧ ¬ TransGen R a b ∧ ¬ TransGen R b a

def withDefault (together R : α → α → Prop) (pair : α × α) (a b : α) : Prop :=
  R a b ∨ (a, b) = pair ∧ IsOpen together R a b

/-- The relation after all pairs of a list have been tried, in the order of the list. -/
def withDefaults (together R : α → α → Prop) (nodes : List α) : α → α → Prop :=
  (pairs nodes).foldl (withDefault together) R

theorem mem_of_mem_pairs {pair : α × α} (isPair : pair ∈ pairs nodes) :
    pair.1 ∈ nodes ∧ pair.2 ∈ nodes := by
  have sub := mem_pairs.1 isPair
  exact ⟨sub.subset (by simp), sub.subset (by simp)⟩

theorem withDefaults_congr {together' : α → α → Prop}
    (same : ∀ a ∈ nodes, ∀ b ∈ nodes, (together a b ↔ together' a b)) :
    withDefaults together R nodes = withDefaults together' R nodes := by
  refine List.foldl_ext _ _ R fun R pair isPair => ?_
  obtain ⟨left, right⟩ := mem_of_mem_pairs isPair
  funext a b
  simp only [withDefault, eq_iff_iff]
  refine or_congr_right (and_congr_right ?_)
  rintro rfl
  rw [IsOpen, IsOpen, same a left b right]

theorem withDefault_of_open (isOpen : IsOpen together R a b) :
    withDefault together R (a, b) = fun x y => R x y ∨ x = a ∧ y = b := by
  funext x y
  simp only [withDefault, Prod.mk.injEq, eq_iff_iff]
  refine or_congr_right (and_iff_left_of_imp ?_)
  rintro ⟨rfl, rfl⟩
  exact isOpen

theorem withDefault_of_not_open (settled : ¬ IsOpen together R a b) :
    withDefault together R (a, b) = R := by
  funext x y
  simp only [withDefault, Prod.mk.injEq, eq_iff_iff, or_iff_left_iff_imp]
  rintro ⟨⟨rfl, rfl⟩, isOpen⟩
  exact (settled isOpen).elim

theorem withDefaults_of_apart (apart : ∀ a b, [a, b].Sublist nodes → ¬ together a b) :
    withDefaults together R nodes = R := by
  have idle : withDefaults together R nodes = (pairs nodes).foldl (fun R _ => R) R :=
    List.foldl_ext _ _ R fun R pair isPair =>
      withDefault_of_not_open fun isOpen => apart _ _ (mem_pairs.1 isPair) isOpen.1
  rw [idle, List.foldl_fixed]

theorem le_withDefault (pair : α × α) : R ≤ withDefault together R pair := fun _ _ => .inl

theorem le_foldl_withDefault (tried : List (α × α)) : R ≤ tried.foldl (withDefault together) R := by
  induction tried generalizing R with
  | nil => exact le_refl R
  | cons pair tried ih => exact le_trans (le_withDefault pair) ih

theorem le_withDefaults : R ≤ withDefaults together R nodes := le_foldl_withDefault _

theorem withDefault_ordered (belong : together a b) :
    TransGen (withDefault together R (a, b)) a b ∨ TransGen (withDefault together R (a, b)) b a := by
  by_cases ordered : TransGen R a b ∨ TransGen R b a
  · exact ordered.imp (TransGen.mono (le_withDefault _) _ _) (TransGen.mono (le_withDefault _) _ _)
  · exact .inl (.single (.inr ⟨rfl, belong, not_or.1 ordered⟩))

theorem withDefaults_ordered (isPair : [a, b].Sublist nodes) (belong : together a b) :
    TransGen (withDefaults together R nodes) a b ∨ TransGen (withDefaults together R nodes) b a := by
  obtain ⟨before, behind, split⟩ := List.append_of_mem (mem_pairs.2 isPair)
  rw [withDefaults, split, List.foldl_append, List.foldl_cons]
  have lasts : _ ≤ behind.foldl (withDefault together)
      (withDefault together (before.foldl (withDefault together) R) (a, b)) :=
    le_foldl_withDefault behind
  exact (withDefault_ordered belong).imp (TransGen.mono lasts _ _) (TransGen.mono lasts _ _)

theorem cycle_of_withDefault {pair : α × α} (differ : pair.1 ≠ pair.2)
    (there : TransGen (withDefault together R pair) a b)
    (back : TransGen (withDefault together R pair) b a) : TransGen R a b ∧ TransGen R b a := by
  obtain ⟨c, d⟩ := pair
  by_cases isOpen : IsOpen together R c d
  · rw [withDefault_of_open isOpen, transGen_or_pair] at there back
    -- A way that takes the new pair, and one back, would lead from its second element to its first.
    have noWay : ¬ ReflTransGen R d c := by
      rw [reflTransGen_iff_eq_or_transGen]
      exact not_or.2 ⟨differ, isOpen.2.2⟩
    rcases there with there | ⟨before, behind⟩
    · rcases back with back | ⟨before, behind⟩
      · exact ⟨there, back⟩
      · exact (noWay ((behind.trans there.to_reflTransGen).trans before)).elim
    · rcases back with back | ⟨before', -⟩
      · exact (noWay ((behind.trans back.to_reflTransGen).trans before)).elim
      · exact (noWay (behind.trans before')).elim
  · rw [withDefault_of_not_open isOpen] at there back
    exact ⟨there, back⟩

theorem cycle_of_withDefaults (nodup : nodes.Nodup)
    (there : TransGen (withDefaults together R nodes) a b)
    (back : TransGen (withDefaults together R nodes) b a) : TransGen R a b ∧ TransGen R b a := by
  have differ (pair : α × α) (isPair : pair ∈ pairs nodes) : pair.1 ≠ pair.2 :=
    List.pairwise_iff_forall_sublist.1 nodup (mem_pairs.1 isPair)
  rw [withDefaults] at there back
  generalize pairs nodes = tried at differ there back
  induction tried generalizing R with
  | nil => exact ⟨there, back⟩
  | cons pair tried ih =>
    obtain ⟨first, rest⟩ := List.forall_mem_cons.1 differ
    obtain ⟨there, back⟩ := ih rest there back
    exact cycle_of_withDefault first there back

end Defaults

namespace Graph

variable {g : Graph α} {nodes : List α} {together : α → α → Bool} {a b : α}

/-- The closure is that of the relation, and the relation is one of the nodes. -/
structure Exact (g : Graph α) (nodes : List α) : Prop where
  onNodes : g.succ.Over nodes
  keys : g.reach.map Prod.fst = nodes
  reach : ∀ a b, b ∈ g.reach.of a ↔ TransGen g.succ.Next a b

theorem exact_ofSuccessors {s : Successors α} (onNodes : s.Over nodes) : (ofSuccessors s).Exact nodes where
  onNodes := onNodes
  keys := by simpa [ofSuccessors, Successors.closure, Function.comp_def] using onNodes.keys
  reach _ _ := Successors.mem_of_closure

namespace Exact

theorem next_add (h : g.Exact nodes) (left : a ∈ nodes) :
    (g.add a b).succ.Next = fun x y => g.succ.Next x y ∨ x = a ∧ y = b :=
  Successors.next_insert (by rwa [h.onNodes.keys])

theorem add (h : g.Exact nodes) (left : a ∈ nodes) (right : b ∈ nodes) : (g.add a b).Exact nodes where
  onNodes := h.onNodes.insert right
  keys := by simpa [Graph.add, Successors.extendClosure, Function.comp_def] using h.keys
  reach x y := by
    have isKey (before : x = a ∨ a ∈ g.reach.of x) : x ∈ g.reach.map Prod.fst := by
      rcases before with rfl | behind
      · rwa [h.keys]
      · exact Successors.mem_keys_of_mem behind
    rw [h.next_add left, transGen_or_pair, reflTransGen_iff_eq_or_transGen,
      reflTransGen_iff_eq_or_transGen]
    simp only [Graph.add, Successors.mem_extendClosure, ← h.reach, eq_comm (a := a)]
    grind

theorem isOrdered_iff (h : g.Exact nodes) : g.reach.isOrdered a b = true ↔
    TransGen g.succ.Next a b ∨ TransGen g.succ.Next b a := by
  simp [Successors.isOrdered, h.reach]

theorem addDefault (together : α → α → Bool) (h : g.Exact nodes) (left : a ∈ nodes) (right : b ∈ nodes) :
    Exact (if !g.reach.isOrdered a b && together a b then g.add a b else g) nodes ∧
      (if !g.reach.isOrdered a b && together a b then g.add a b else g).succ.Next =
        withDefault (fun a b => together a b = true) g.succ.Next (a, b) := by
  have isOpen : (!g.reach.isOrdered a b && together a b) = true ↔
      IsOpen (fun a b => together a b = true) g.succ.Next a b := by
    rw [Bool.and_eq_true, Bool.not_eq_true', ← Bool.not_eq_true, h.isOrdered_iff, not_or, and_comm]
    rfl
  split
  · next added => exact ⟨h.add left right, by rw [withDefault_of_open (isOpen.1 added), h.next_add left]⟩
  · next settled => exact ⟨h, by rw [withDefault_of_not_open (mt isOpen.2 settled)]⟩

theorem addDefaults (h : g.Exact nodes) (together : α → α → Bool) :
    (g.addDefaults together nodes).Exact nodes ∧ (g.addDefaults together nodes).succ.Next =
      withDefaults (fun a b => together a b = true) g.succ.Next nodes := by
  have known : ∀ pair ∈ pairs nodes, pair.1 ∈ nodes ∧ pair.2 ∈ nodes := fun _ => mem_of_mem_pairs
  rw [Graph.addDefaults, withDefaults]
  generalize pairs nodes = tried at known
  induction tried generalizing g with
  | nil => exact ⟨h, rfl⟩
  | cons pair tried ih =>
    obtain ⟨⟨left, right⟩, rest⟩ := List.forall_mem_cons.1 known
    obtain ⟨exact', next⟩ := h.addDefault together left right
    rw [List.foldl_cons, List.foldl_cons, ← next]
    exact ih exact' rest

theorem mem_unordered (h : g.Exact nodes) : (a, b) ∈ g.unordered nodes ↔
    [a, b].Sublist nodes ∧ ¬ TransGen g.succ.Next a b ∧ ¬ TransGen g.succ.Next b a := by
  rw [unordered, List.mem_filter, mem_pairs, Bool.not_eq_true', ← Bool.not_eq_true, h.isOrdered_iff,
    not_or]

end Exact

variable {s : Successors α}

/-- The closure of a table has the ends of its non-empty paths, the same as are found in as many rounds as there
are nodes or more. Whatever closure a graph has, it has the ends of all non-empty paths again when an edge has
been added. -/
theorem closure_maintained (onNodes : s.Over nodes) :
    (∀ a b, b ∈ s.closure.of a ↔ TransGen s.Next a b) ∧
    (∀ a steps, nodes.length ≤ steps → ∀ b, b ∈ s.reachFrom steps (s.of a) ↔ b ∈ s.closure.of a) ∧
    ∀ reach : Successors α, reach.map Prod.fst = nodes →
      (∀ a b, b ∈ reach.of a ↔ TransGen s.Next a b) → ∀ a ∈ nodes, ∀ b ∈ nodes,
      (∀ x y, ((mk s reach).add a b).succ.Next x y ↔ s.Next x y ∨ x = a ∧ y = b) ∧
      ∀ x y, y ∈ ((mk s reach).add a b).reach.of x ↔ TransGen ((mk s reach).add a b).succ.Next x y := by
  refine ⟨fun _ _ => Successors.mem_of_closure,
    fun _ _ enough _ => Successors.mem_reachFrom_iff onNodes enough, fun reach keys exact' a left b right => ?_⟩
  have before : Exact ⟨s, reach⟩ nodes := ⟨onNodes, keys, exact'⟩
  exact ⟨fun x y => iff_of_eq (congrFun₂ (before.next_add left) x y), (before.add left right).reach⟩

/-- Two nodes that lead to each other, and one that leads to itself. -/
def circles : Successors (Fin 3) := [(0, [1]), (1, [0]), (2, [2])]

theorem closure_maintained_circles :
    circles.Over [0, 1, 2] ∧ TransGen circles.Next 0 0 ∧ ¬ TransGen circles.Next 0 2 ∧
      TransGen (circles.insert 1 2).Next 0 2 ∧ ¬ TransGen (circles.insert 1 2).Next 2 1 := by
  have onNodes : circles.Over [0, 1, 2] := ⟨rfl, by decide⟩
  obtain ⟨closed, -, extended⟩ := closure_maintained onNodes
  obtain ⟨-, again⟩ := extended circles.closure rfl closed 1 (by decide) 2 (by decide)
  refine ⟨onNodes, (closed 0 0).1 ?_, fun way => absurd ((closed 0 2).2 way) ?_, (again 0 2).1 ?_,
    fun way => absurd ((again 2 1).2 way) ?_⟩
  all_goals decide +kernel

end Graph

section JoinPoints

variable {entries : List Entry} {edges : List Edge} {members : List MappingId}

def Related (edges : List Edge) (members : List MappingId) (a b : MappingId) : Prop :=
  (a ∈ members ∧ b ∈ members) ∧ ∃ edge ∈ edges, edge.high = a ∧ edge.low = b

theorem foldl_relate (edges : List Edge) {s : Successors MappingId} (onNodes : s.Over members) :
    (edges.foldl (fun succ edge => succ.relate edge.high edge.low) s).Over members ∧
      ∀ a b, b ∈ (edges.foldl (fun succ edge => succ.relate edge.high edge.low) s).of a ↔
        b ∈ s.of a ∨ Related edges members a b := by
  induction edges generalizing s with
  | nil => simpa [Related] using onNodes
  | cons edge edges ih =>
    obtain ⟨onNodes', related⟩ := ih (onNodes.relate (a := edge.high) (b := edge.low))
    refine ⟨onNodes', fun a b => ?_⟩
    rw [List.foldl_cons, related, Successors.mem_of_relate onNodes]
    simp only [Related, List.exists_mem_cons_iff]
    grind

theorem exact_graphOf : (graphOf entries edges members).Exact members ∧
    (graphOf entries edges members).succ.Next =
      withDefaults (fun a b => roleOf entries a = roleOf entries b) (Related edges members) members := by
  obtain ⟨onNodes, related⟩ := foldl_relate edges (Successors.over_ofNodes members)
  obtain ⟨exact', next⟩ := (Graph.exact_ofSuccessors onNodes).addDefaults
    fun a b => roleOf entries a == roleOf entries b
  refine ⟨exact', next.trans ?_⟩
  simp only [beq_iff_eq]
  congr 1
  funext a b
  simp [Graph.ofSuccessors, Successors.Next, related]

theorem over_graphOf : (graphOf entries edges members).succ.Over members := exact_graphOf.1.onNodes

theorem mem_graphOf {edge : Edge} (declared : edge ∈ edges) (high : edge.high ∈ members)
    (low : edge.low ∈ members) : edge.low ∈ (graphOf entries edges members).succ.of edge.high := by
  change (graphOf entries edges members).succ.Next edge.high edge.low
  rw [exact_graphOf.2]
  exact le_withDefaults _ _ ⟨⟨high, low⟩, edge, declared, rfl, rfl⟩

end JoinPoints

end TeamRoles.Precedence
