import TeamRoles.Env.Walk
import TeamRoles.Generics.Erasure
import TeamRoles.Members.MemberTypes

/-!
Searches through a type and the types above it.
-/

namespace TeamRoles

def Supertypes.all (s : Supertypes) : List Ty := s.superclass.toList ++ s.interfaces

def Supertypes.bindings (s : Supertypes) : List BindingId := s.all.filterMap Env.bindingOf?

namespace Resolve

def above (b : BindingId) : Resolve (List BindingId) :=
  return (← ask (.supertypes b)).bindings

def superclassOf (b : BindingId) : Resolve (Option BindingId) :=
  return (← ask (.supertypes b)).superclass.bind Env.bindingOf?

def reaches (b target : BindingId) : Resolve Bool :=
  walk .lastFirst above [b] false fun _ current =>
    return if current == target then .stop true else .inner false

def findMemberType (b : BindingId) (simple : String) : Resolve (Option BindingId) :=
  walk .depthFirst above [b] none fun _ current => do
    let members ← memberTypes current
    let e ← get
    match members.find? fun m => (e.binding m).simpleName == simple with
    | some found => return .stop (some found)
    | none => return .inner none

/-- All methods of a name; of those that are the same up to erasure only the first found. -/
def findMethods (b : BindingId) (name : String) : Resolve (List MethodId) :=
  walk .breadthFirst above [b] [] fun found current => do
    let methods ← ask (.methods current)
    let e ← get
    return .inner (methods.foldl (fun found m =>
      if (e.method m).name != name || found.any (e.sameParameters · m) then found
      else found ++ [m]) found)

/-- Are methods being resolved that a search for methods would need? -/
def methodsInProgress (b : BindingId) : Resolve Bool :=
  walk .breadthFirst above [b] false fun _ current => do
    return if ((← get).binding current).methods.isInProgress then .stop true else .inner false

def findField (b : BindingId) (name : String) : Resolve (Option FieldId) :=
  walk .breadthFirst above [b] none fun _ current => do
    let fields ← ask (.fields current)
    let e ← get
    match fields.find? fun f => (e.field f).name == name with
    | some found => return .stop (some found)
    | none => return .inner none

end Resolve

end TeamRoles
