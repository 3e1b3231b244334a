import TeamRoles.Signature.Basic

/-!
Types of the binding session. A type is a tree over the bindings, type variables, captures and fields
of a session, which it names by their numbers; two types are the same when their trees are.
-/

namespace TeamRoles

structure BindingId where
  index : Nat
  deriving DecidableEq, Inhabited

structure MethodId where
  index : Nat
  deriving DecidableEq, Inhabited

structure FieldId where
  index : Nat
  deriving DecidableEq, Inhabited

structure TypeVarId where
  index : Nat
  deriving DecidableEq, Inhabited

structure CaptureId where
  index : Nat
  deriving DecidableEq, Inhabited

structure UnitId where
  index : Nat
  deriving DecidableEq, Inhabited

structure MappingId where
  index : Nat
  deriving DecidableEq, Inhabited

inductive WildcardKind where
  | unbounded | extends | super
  deriving DecidableEq

inductive Ty where
  | primitive (b : BaseType)
  | null
  | declared (b : BindingId)
  | parameterized (generic : BindingId) (args : List Ty) (enclosing : Option Ty)
  | raw (generic : BindingId) (enclosing : Option Ty)
  | variable (v : TypeVarId)
  | wildcard (kind : WildcardKind) (bound : Option Ty)
  | captured (c : CaptureId)
  | array (component : Ty)
  /-- A role of the team instance that a path of fields leads to. -/
  | anchored (role : Ty) (path : List FieldId)

namespace Ty

instance : Inhabited Ty := ⟨.null⟩

def any : Ty := .wildcard .unbounded none

def isReference : Ty → Bool
  | .primitive _ => false
  | _ => true

mutual

def same : Ty → Ty → Bool
  | .primitive a, .primitive b => a == b
  | .null, .null => true
  | .declared a, .declared b => a == b
  | .parameterized g xs e, .parameterized h ys f => g == h && sameArgs xs ys && sameOption e f
  | .raw g e, .raw h f => g == h && sameOption e f
  | .variable a, .variable b => a == b
  | .wildcard k e, .wildcard l f => k == l && sameOption e f
  | .captured a, .captured b => a == b
  | .array a, .array b => same a b
  | .anchored a p, .anchored b q => same a b && p == q
  | _, _ => false

def sameArgs : List Ty → List Ty → Bool
  | [], [] => true
  | x :: xs, y :: ys => same x y && sameArgs xs ys
  | _, _ => false

def sameOption : Option Ty → Option Ty → Bool
  | none, none => true
  | some x, some y => same x y
  | _, _ => false

end

mutual

theorem same_iff : ∀ a b : Ty, same a b = true ↔ a = b
  | .primitive a, b => by cases b <;> simp [same]
  | .null, b => by cases b <;> simp [same]
  | .declared a, b => by cases b <;> simp [same]
  | .parameterized g xs e, b => by
    cases b <;> simp [same, sameArgs_iff xs, sameOption_iff e, and_assoc]
  | .raw g e, b => by cases b <;> simp [same, sameOption_iff e]
  | .variable v, b => by cases b <;> simp [same]
  | .wildcard k e, b => by cases b <;> simp [same, sameOption_iff e]
  | .captured c, b => by cases b <;> simp [same]
  | .array a, b => by cases b <;> simp [same, same_iff a]
  | .anchored a p, b => by cases b <;> simp [same, same_iff a]

theorem sameArgs_iff : ∀ xs ys : List Ty, sameArgs xs ys = true ↔ xs = ys
  | [], ys => by cases ys <;> simp [sameArgs]
  | x :: xs, ys => by cases ys <;> simp [sameArgs, same_iff x, sameArgs_iff xs]

theorem sameOption_iff : ∀ x y : Option Ty, sameOption x y = true ↔ x = y
  | none, y => by cases y <;> simp [sameOption]
  | some x, y => by cases y <;> simp [sameOption, same_iff x]

end

instance : DecidableEq Ty := fun a b => decidable_of_iff _ (same_iff a b)

end Ty

end TeamRoles
