/-!
Finite relations as successor tables, their transitive closure, and linear orders that respect them.
-/

namespace TeamRoles.Precedence

/-- All pairs of elements, each with one that stands behind it. -/
def pairs {α : Type} : List α → List (α × α)
  | [] => []
  | a :: rest => rest.map (a, ·) ++ pairs rest

/-- The elements of a set, then those of a list that it does not have. -/
def addAll {α : Type} [DecidableEq α] (set more : List α) : List α :=
  more.foldl (fun set a => if a ∈ set then set else set ++ [a]) set

/-- For every node the nodes that come after it. -/
abbrev Successors (α : Type) := List (α × List α)

namespace Successors

variable {α : Type} [DecidableEq α]

def ofNodes (nodes : List α) : Successors α := nodes.map (·, [])

def of (s : Successors α) (a : α) : List α := (s.lookup a).getD []

def insert (s : Successors α) (a b : α) : Successors α :=
  s.map fun (x, next) => (x, if x = a then addAll next [b] else next)

/-- Relates `a` to `b` if both are nodes. -/
def relate (s : Successors α) (a b : α) : Successors α :=
  if s.any (·.1 = b) then s.insert a b else s

/-- The successors of nodes that have not been seen. -/
def waiting (s : Successors α) (seen : List α) : List α :=
  s.flatMap fun (x, next) => if x ∈ seen then [] else next

theorem length_waiting_cons {x : α} {next seen : List α} {s : Successors α} :
    (waiting ((x, next) :: s) seen).length = (if x ∈ seen then 0 else next.length) + (s.waiting seen).length := by
  rw [waiting, List.flatMap_cons, List.length_append, apply_ite List.length]
  rfl

theorem length_waiting_le {a : α} {seen : List α} {s : Successors α} :
    (s.waiting (a :: seen)).length ≤ (s.waiting seen).length := by
  induction s with
  | nil => exact Nat.le_refl _
  | cons entry s ih =>
    rw [length_waiting_cons, length_waiting_cons]
    grind

theorem length_of_add_waiting_le {a : α} {seen : List α} {s : Successors α} (new : a ∉ seen) :
    (s.of a).length + (s.waiting (a :: seen)).length ≤ (s.waiting seen).length := by
  induction s with
  | nil => exact Nat.le_refl _
  | cons entry rest ih =>
    obtain ⟨x, next⟩ := entry
    have fewer : (waiting rest (a :: seen)).length ≤ (waiting rest seen).length := length_waiting_le
    simp only [length_waiting_cons, of, List.lookup_cons] at ih ⊢
    by_cases same : a = x
    · subst same
      simpa [new] using fewer
    · have other : (a == x) = false := by simpa using same
      rw [other]
      grind

/-- What has been seen when no node of the stack is left: each one is taken from it and, if it is seen for
the first time, its successors are put there. -/
def search (s : Successors α) (seen : List α) : List α → List α
  | [] => seen
  | a :: stack =>
    if a ∈ seen then s.search seen stack else s.search (a :: seen) (s.of a ++ stack)
termination_by stack => stack.length + (s.waiting seen).length
decreasing_by
  · exact Nat.add_lt_add_right (Nat.lt_succ_self _) _
  · next new =>
    have fewer := length_of_add_waiting_le (s := s) new
    rw [List.length_append, List.length_cons]
    omega

/-- For every node the nodes that a path of one or more steps leads to. -/
def closure (s : Successors α) : Successors α :=
  s.map fun (x, next) => (x, s.search [] next)

/-- The closure of a relation after one pair more, from the closure before it. -/
def extendClosure (reach : Successors α) (a b : α) : Successors α :=
  let gained := addAll (reach.of b) [b]
  reach.map fun (x, seen) => (x, if x = a ∨ a ∈ seen then addAll seen gained else seen)

def isOrdered (reach : Successors α) (a b : α) : Bool :=
  (reach.of a).contains b || (reach.of b).contains a

end Successors

structure Graph (α : Type) where
  succ : Successors α
  reach : Successors α

namespace Graph

variable {α : Type} [DecidableEq α]

def ofSuccessors (succ : Successors α) : Graph α := ⟨succ, succ.closure⟩

def add (g : Graph α) (a b : α) : Graph α := ⟨g.succ.insert a b, g.reach.extendClosure a b⟩

/-- Orders every pair that belongs together and is not yet ordered. -/
def addDefaults (together : α → α → Bool) (g : Graph α) (nodes : List α) : Graph α :=
  (pairs nodes).foldl (fun g (a, b) =>
    if !g.reach.isOrdered a b && together a b then g.add a b else g) g

def unordered (g : Graph α) (nodes : List α) : List (α × α) :=
  (pairs nodes).filter fun (a, b) => !g.reach.isOrdered a b

end Graph

/-- For every node how many nodes are still to come before it. -/
abbrev Counters (α : Type) := List (α × Nat)

namespace Counters

variable {α : Type} [DecidableEq α]

def ofSuccessors (succ : Successors α) (nodes : List α) : Counters α :=
  let behind := nodes.flatMap succ.of
  nodes.map fun a => (a, behind.count a)

def of (c : Counters α) (a : α) : Nat := (c.lookup a).getD 0

/-- One node less comes before `a`; a counter does not fall below zero. -/
def lower? (c : Counters α) (a : α) : Option (Counters α) :=
  if c.of a = 0 then none else some (c.map fun (x, n) => (x, if x = a then n - 1 else n))

end Counters

section Sorting

variable {α : Type} [DecidableEq α]

/-- Takes the first waiting node that none comes before, as long as there is one. What remains is on a
cycle or behind one. -/
def sortFrom? (succ : Successors α) (counters : Counters α) (waiting : List α) :
    Option (List α × List α) :=
  match _found : waiting.find? (counters.of · == 0) with
  | none => some ([], waiting)
  | some a => do
    let counters ← (succ.of a).foldlM Counters.lower? counters
    let (sorted, left) ← sortFrom? succ counters (waiting.erase a)
    return (a :: sorted, left)
termination_by waiting.length
decreasing_by
  have isWaiting : a ∈ waiting := List.mem_of_find?_eq_some _found
  rw [List.length_erase_of_mem isWaiting]
  exact Nat.sub_lt (List.length_pos_of_mem isWaiting) Nat.one_pos

/-- The nodes in an order that respects the relation, and those that have none. -/
def sort? (succ : Successors α) (nodes : List α) : Option (List α × List α) :=
  sortFrom? succ (.ofSuccessors succ nodes) nodes

end Sorting

end TeamRoles.Precedence
