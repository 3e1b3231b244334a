import TeamRoles.Descriptor.Basic
import TeamRoles.Options

/-!
Where compiled types come from.
-/

namespace TeamRoles

structure Provider where
  find : String → Except Descriptor.Error (Option Descriptor)
  packageExists : String → Bool

namespace Provider

def empty : Provider := ⟨fun _ => .ok none, fun _ => false⟩

instance : Inhabited Provider := ⟨empty⟩

/-- Asks `first`, and `second` for what `first` does not have. -/
def layered (first second : Provider) : Provider where
  find name := do
    match ← first.find name with
    | some d => return some d
    | none => second.find name
  packageExists package := first.packageExists package || second.packageExists package

end Provider

/-- Descriptors by name, and the packages they lie in. -/
structure Library where
  types : List (String × Descriptor) := []
  packages : List String := []
  deriving Inhabited

namespace Library

def parentPackage (package : List Char) : List Char :=
  ((package.reverse.dropWhile (· != '.')).drop 1).reverse

/-- A package path and all packages around it. -/
def packagePaths (fuel : Nat) (package : List Char) : List String :=
  match fuel with
  | 0 => []
  | fuel + 1 =>
    if package.isEmpty then []
    else String.ofList package :: packagePaths fuel (parentPackage package)

/-- A later descriptor replaces an earlier one of the same name. -/
def insert (l : Library) (d : Descriptor) : Library :=
  let package := (Name.packageOf d.name).toList
  { types := (d.name, d) :: l.types.filter (·.1 != d.name)
    packages := packagePaths package.length package ++ l.packages }

def insertBytes (l : Library) (bytes : List UInt8) : Except Descriptor.Error Library := do
  return l.insert (← Descriptor.decode bytes)

def size (l : Library) : Nat := l.types.length

def provider (l : Library) : Provider where
  find name := .ok (l.types.lookup name)
  packageExists := l.packages.contains

end Library

namespace Descriptor

def publicMethod (name signature : String) : Member := ⟨name, .public, signature⟩

def classText (name : String) : String :=
  "L" ++ String.ofList (name.toList.map fun c => if c = '.' then '/' else c) ++ ";"

def flagged (flags : UInt16) : Extension := .v1 { flags }

/-- The types that the language itself relies on. -/
def core (n : WellKnownNames) : List Descriptor :=
  [{ name := n.object, modifiers := .public
     methods := [publicMethod "<init>" "()V",
       publicMethod "toString" ("()" ++ classText n.string),
       publicMethod "equals" ("(" ++ classText n.object ++ ")Z")] },
   { name := n.team, modifiers := Modifiers.public.union .team, superclass := some n.object
     memberTypes := [n.confined]
     methods := [publicMethod "activate" "()V", publicMethod "deactivate" "()V"]
     extension := flagged Attributes.teamFlag },
   { name := n.confined, modifiers := Modifiers.public.union .abstract, enclosing := some n.team
     extension := flagged (Attributes.roleFlag ||| Attributes.confinedFlag) },
   { name := n.string, modifiers := Modifiers.public.union .final, superclass := some n.object
     methods := [publicMethod "length" "()I"] },
   { name := n.throwable, modifiers := .public, superclass := some n.object },
   { name := n.boundBase
     modifiers := (Modifiers.public.union .interface).union .abstract }]

end Descriptor

def Library.core (n : WellKnownNames) : Library := (Descriptor.core n).foldl Library.insert {}

end TeamRoles
