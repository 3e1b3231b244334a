import TeamRoles.Decl.Basic
import TeamRoles.Problem.Id

/-!
How often a callin method calls its base method. Counts are abstracted to none, one and several; the
analysis follows every way control can leave a piece of the body and keeps the counts with which it
leaves.
-/

namespace TeamRoles

structure CallCounts where
  zero : Bool := false
  one : Bool := false
  many : Bool := false
  deriving DecidableEq, Inhabited

namespace CallCounts

def empty : CallCounts := {}
def start : CallCounts := { zero := true }

def isEmpty (c : CallCounts) : Bool := !(c.zero || c.one || c.many)

def union (a b : CallCounts) : CallCounts :=
  ⟨a.zero || b.zero, a.one || b.one, a.many || b.many⟩

def called (c : CallCounts) : CallCounts := ⟨false, c.zero, c.one || c.many⟩

def size (c : CallCounts) : Nat := c.zero.toNat + c.one.toNat + c.many.toNat

theorem size_le (c : CallCounts) : c.size ≤ 3 := by
  obtain ⟨z, o, m⟩ := c
  cases z <;> cases o <;> cases m <;> decide

theorem size_lt_size_union {a b : CallCounts} (h : a.union b ≠ a) : a.size < (a.union b).size := by
  obtain ⟨z, o, m⟩ := a
  obtain ⟨z', o', m'⟩ := b
  revert h
  cases z <;> cases o <;> cases m <;> cases z' <;> cases o' <;> cases m' <;> decide

end CallCounts

/-- A way to leave a piece of a body. -/
inductive Exit where
  | fallthrough | returned | thrown | broken | continued
  deriving DecidableEq

namespace Exit

def all : List Exit := [.fallthrough, .returned, .thrown, .broken, .continued]

end Exit

/-- The counts with which each exit is taken, and those present at some point inside. -/
structure Exits where
  fallthrough : CallCounts := .empty
  returned : CallCounts := .empty
  thrown : CallCounts := .empty
  broken : CallCounts := .empty
  continued : CallCounts := .empty
  reachable : CallCounts := .empty
  deriving DecidableEq, Inhabited

namespace Exits

def counts (e : Exits) : Exit → CallCounts
  | .fallthrough => e.fallthrough
  | .returned => e.returned
  | .thrown => e.thrown
  | .broken => e.broken
  | .continued => e.continued

def add (e : Exits) (exit : Exit) (c : CallCounts) : Exits :=
  match exit with
  | .fallthrough => { e with fallthrough := e.fallthrough.union c }
  | .returned => { e with returned := e.returned.union c }
  | .thrown => { e with thrown := e.thrown.union c }
  | .broken => { e with broken := e.broken.union c }
  | .continued => { e with continued := e.continued.union c }

def only (exit : Exit) (c : CallCounts) : Exits := add { reachable := c } exit c

def join (a b : Exits) : Exits where
  fallthrough := a.fallthrough.union b.fallthrough
  returned := a.returned.union b.returned
  thrown := a.thrown.union b.thrown
  broken := a.broken.union b.broken
  continued := a.continued.union b.continued
  reachable := a.reachable.union b.reachable

def closed (e : Exits) : Exits := { e with fallthrough := .empty }

/-- The counts with which a loop body comes back to its head. -/
def again (e : Exits) : CallCounts := e.fallthrough.union e.continued

end Exits

namespace FlowNode

/-- Repeats a loop body until it adds no count to those at its head. Every further round adds one, so
the body is run at most three times. -/
def settle (body : CallCounts → Exits) (head : CallCounts) (rounds : Exits) : CallCounts × Exits :=
  let round := body head
  if head.union round.again = head then (head, rounds.join round)
  else settle body (head.union round.again) (rounds.join round)
termination_by 3 - head.size
decreasing_by
  have grows := CallCounts.size_lt_size_union ‹_›
  have bounded := CallCounts.size_le (head.union (body head).again)
  exact Nat.sub_lt_sub_left (Nat.lt_of_lt_of_le grows bounded) grows

/-- A finally block runs on each pending exit and resumes it if it completes. -/
def throughFinally (block : CallCounts → Exits) (pending : Exits) : Exits :=
  Exit.all.foldl (fun out exit =>
    if (pending.counts exit).isEmpty then out
    else
      let ran := block (pending.counts exit)
      (out.join ran.closed).add exit ran.fallthrough) { reachable := pending.reachable }

mutual

def analyze : FlowNode → CallCounts → Exits
  | .stmt, c => .only .fallthrough c
  | .baseCall, c => { Exits.only .fallthrough c.called with reachable := c.union c.called }
  | .return, c => .only .returned c
  | .throw, c => .only .thrown c
  | .break, c => .only .broken c
  | .continue, c => .only .continued c
  | .seq nodes, c => analyzeSeq nodes (.only .fallthrough c)
  | .branch alternatives, c =>
    if alternatives.isEmpty then .only .fallthrough c else joinAll {} alternatives c
  | .loop body, c =>
    let (head, rounds) := settle (fun c => body.analyze c) c {}
    { fallthrough := head.union rounds.broken, returned := rounds.returned,
      thrown := rounds.thrown, reachable := rounds.reachable.union c }
  | .try body catches cleanup, c =>
    let inner := body.analyze c
    let handled := joinAll inner catches inner.reachable
    analyzeFinally cleanup handled

/-- The nodes run one after the other, as long as control gets through. -/
def analyzeSeq : List FlowNode → Exits → Exits
  | [], exits => exits
  | node :: nodes, exits =>
    if exits.fallthrough.isEmpty then exits
    else analyzeSeq nodes (exits.closed.join (node.analyze exits.fallthrough))

/-- Any one of the nodes runs, each from the same counts. -/
def joinAll (exits : Exits) : List FlowNode → CallCounts → Exits
  | [], _ => exits
  | node :: nodes, c => joinAll (exits.join (node.analyze c)) nodes c

def analyzeFinally : Option FlowNode → Exits → Exits
  | none, pending => pending
  | some block, pending => throughFinally (fun c => block.analyze c) pending

end

/-- The counts with which the whole body completes or returns. -/
def baseCallCounts (body : FlowNode) : CallCounts :=
  let exits := body.analyze .start
  exits.fallthrough.union exits.returned

end FlowNode

/-- What is wrong with a callin method that ends with these counts. -/
def CallCounts.problems (c : CallCounts) : List ProblemId :=
  if c.isEmpty then []
  else
    (if !c.zero then [] else if c.one || c.many then [.potentiallyMissingBaseCall]
      else [.definitelyMissingBaseCall]) ++
    (if !c.many then [] else if c.zero || c.one then [.potentiallyDuplicateBaseCall]
      else [.definitelyDuplicateBaseCall])

end TeamRoles
