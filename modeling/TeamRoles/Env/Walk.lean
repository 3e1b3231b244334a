import TeamRoles.Env.Resolve

/-!
Walks over types and what lies above them. A walk meets every node once; what it has still to visit
is a list, and the order of the walk is how the nodes above a node are put into that list.
-/

namespace TeamRoles

/-- What a walk does after visiting a node. -/
inductive Visit (σ : Type) where
  | stop (found : σ)
  | leaf (found : σ)
  | inner (found : σ)

/-- Where a walk puts the nodes above the one just visited. -/
inductive WalkOrder where
  | breadthFirst
  | depthFirst
  /-- Before all others, the last of them first. -/
  | lastFirst

def WalkOrder.push {α : Type} (order : WalkOrder) (todo above : List α) : List α :=
  match order with
  | .breadthFirst => todo ++ above
  | .depthFirst => above ++ todo
  | .lastFirst => above.reverse ++ todo

namespace Resolve

def walkFrom {α σ : Type} [BEq α] (order : WalkOrder) (above : α → Resolve (List α))
    (visit : σ → α → Resolve (Visit σ)) (fuel : Nat) (seen todo : List α) (found : σ) :
    Resolve σ :=
  match fuel, todo with
  | _, [] => return found
  | 0, _ :: _ => throw .tooDeep
  | fuel + 1, a :: todo =>
    if seen.contains a then walkFrom order above visit fuel seen todo found
    else do
      match ← visit found a with
      | .stop found => return found
      | .leaf found => walkFrom order above visit fuel (a :: seen) todo found
      | .inner found =>
        let next ← above a
        walkFrom order above visit fuel (a :: seen) (order.push todo next) found

def walk {α σ : Type} [BEq α] (order : WalkOrder) (above : α → Resolve (List α))
    (start : List α) (found : σ) (visit : σ → α → Resolve (Visit σ)) : Resolve σ := do
  walkFrom order above visit (← depth) [] start found

end Resolve

end TeamRoles
