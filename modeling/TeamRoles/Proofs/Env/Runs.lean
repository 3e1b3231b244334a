import Mathlib.Data.List.Forall2
import TeamRoles.Proofs.Env.Methods
import TeamRoles.Roles.Tsuper

/-!
Runs of resolutions, with all they do to names, slots, caches, methods and mappings. A run has a level,
and no run inside the resolution of a part is of a higher level than that part allows: names are at level
0, then come imports, member types, type variables and supertypes, then tsuper roles and subtyping, base
classes, fields, methods, mappings and members of instantiations, precedence, and the declaration of units.
-/

namespace TeamRoles

def Abort.isReentrant : Abort → Bool
  | .reentrant _ _ => true
  | _ => false

def Binding.standIn (name : String) (reason : ProblemReason) : Binding where
  name := name
  package := Name.packageOf name
  modifiers := .public
  origin := .problem reason
  supertypes := .resolved {}
  memberTypes := .resolved []
  typeVariables := .resolved []
  fields := .resolved []
  methods := .resolved []
  baseClass := .resolved none
  hierarchyHasProblems := true

/-- Nothing about the binding has been resolved, and no role file has been added to it. -/
structure Binding.IsBare (x : Binding) : Prop where
  eq : x.bare = x
  roleFileRoles : ∀ model ∈ x.team, model.roleFileRoles = []
  isTeam : x.isTeam = true → x.team.isSome = true

def Ty.generics : Ty → List BindingId
  | .parameterized generic _ enclosing => generic :: genericsOfOption enclosing
  | .raw generic enclosing => generic :: genericsOfOption enclosing
  | .anchored role _ => role.generics
  | _ => []
where
  genericsOfOption : Option Ty → List BindingId
    | none => []
    | some t => t.generics

namespace Env

def Namesakes (e : Env) (b c : BindingId) : Prop :=
  (b.index < e.bindings.size ∧ c.index < e.bindings.size) ∧
    (e.binding b).simpleName = (e.binding c).simpleName

def Superclass (e : Env) (b : BindingId) (c : Option BindingId) : Prop :=
  ∃ s, e.Shows b s ∧ c = s.superclass.bind bindingOf?

/-- The member of a team that a role refines: the first other one that is called as the role is. -/
def refined? (e : Env) (role team : BindingId) : Option BindingId :=
  ((e.slot (.memberTypes team)).get?.getD []).find? fun m =>
    (e.binding m).simpleName == (e.binding role).simpleName && m != role

/-- Super-teams of the team of a role, the nearest first, with the members that the role refines in them. -/
structure Refines (e : Env) (role team : BindingId) (teams found : List BindingId) : Prop where
  teamOf : e.teamOf? role = some team
  chain : List.IsChain (fun b c => e.Superclass b (some c)) (team :: teams)
  nodup : teams.Nodup
  isTeam : ∀ u ∈ teams, (e.binding u).isTeam = true
  members : ∀ u ∈ teams, ∃ list, e.slot (.memberTypes u) = .resolved list
  found : found = teams.filterMap (e.refined? role)

/-- What a role refines in all super-teams of its team: above the last one there is no team that has not been
passed. -/
def RefinesAll (e : Env) (role : BindingId) (found : List BindingId) : Prop :=
  ∃ team teams next, e.Refines role team teams found ∧ e.Superclass (teams.getLastD team) next ∧
    ∀ u ∈ next, (e.binding u).isTeam = true → u ∈ teams

/-- The type as an instantiation shows it: only variables of the types that are instantiated are replaced. -/
def Instance (e : Env) (generics : List BindingId) (t u : Ty) : Prop :=
  ∃ σ, u = t.subst σ ∧ ∀ v, σ v ≠ .variable v →
    ∃ b ∈ generics, ∃ vars, (e.binding b).typeVariables = .resolved vars ∧ v ∈ vars

def OwnsMapping (e : Env) (role : BindingId) (m : MappingId) : Prop :=
  m.index < e.mappings.size ∧ (e.mapping m).role = role

end Env

/-- The value of a part has no number that is out of range, as far as callins depend on it. Tsuper roles
are called as the role is, and its mappings are mappings of it. -/
def Part.InRange (e : Env) : (p : Part) → p.Value → Prop
  | .supertypes _, s => ∀ b ∈ s.bindings, b.index < e.bindings.size
  | .memberTypes _, list => ∀ b ∈ list, b.index < e.bindings.size
  | .tsuperRoles role, list => ∀ b ∈ list, e.Namesakes role b
  | .mappings role, list => ∀ m ∈ list, e.OwnsMapping role m
  | _, _ => True

/-- The numbers in an environment are numbers of types and mappings that it has. -/
structure Env.Ranged (e : Env) : Prop where
  byName : ∀ entry ∈ e.byName, entry.2.index < e.bindings.size
  problems : ∀ entry ∈ e.problemBindings, entry.2.index < e.bindings.size
  roleFiles : ∀ b, ∀ model ∈ (e.binding b).team, ∀ r ∈ model.roleFileRoles,
    r.index < e.bindings.size
  slots : ∀ p v, e.slot p = .resolved v → p.InRange e v
  isRole : ∀ role, e.slot (.mappings role) ≠ .unresolved → (e.binding role).isRole = true

namespace Part

/-- The component that must not be asked for while it is in progress. -/
def component? : Part → Option Component
  | .memberTypes _ => some .memberTypes
  | .typeVariables _ => some .typeVariables
  | .fields _ => some .fields
  | .methods _ => some .methods
  | .tsuperRoles _ => some .tsuperRoles
  | .mappings _ => some .mappings
  | .supertypes _ | .baseClass _ | .imports _ => none

@[simp] def level : Part → Nat
  | .imports _ | .memberTypes _ | .typeVariables _ | .supertypes _ => 1
  | .tsuperRoles _ => 2
  | .baseClass _ => 3
  | .fields _ => 4
  | .methods _ => 5
  | .mappings _ => 6

def inner : Part → Nat
  | .imports _ | .memberTypes _ | .typeVariables _ => 0
  | .supertypes _ | .tsuperRoles _ => 1
  | .baseClass _ => 3
  | .fields _ => 4
  | .methods _ | .mappings _ => 5

theorem inner_le_level (p : Part) : p.inner ≤ p.level := by
  cases p <;> simp [inner, level]

theorem level_pos (p : Part) : 0 < p.level := by
  cases p <;> simp [level]

/-- Where the value of a part may come from, and what it says of the environment it is found in. What tsuper
roles are can be said only if the resolution was begun with numbers in range. -/
def Allows (start : Env) : (p : Part) → p.Value → Env → Prop
  | .supertypes b, s, e => ∀ t ∈ s.all, e.Keeps b t
  | .typeVariables b, vars, e => (e.binding b).isGeneric = false → vars = []
  | .memberTypes b, members, e => ∀ m ∈ members, (∃ name, (name, m) ∈ e.byName) ∨
    ∃ model, (e.binding b).team = some model ∧ m ∈ model.roleFileRoles
  | .tsuperRoles role, roles, e => start.Ranged → e.RefinesAll role roles
  | .methods b, list, e => e.Offers b list
  | .mappings role, list, e => ∀ m ∈ list, e.OwnsMapping role m
  | _, _, _ => True

end Part

namespace Cache

@[simp] def level : Cache → Nat
  | .supertypes _ => 2
  | .fields _ | .methods _ | .memberTypes _ => 6
  | .precedence _ => 7

def Allows : Cache → Env → Prop
  | .supertypes t, _ => (Resolve.genericOf? t).isSome ∧ ∀ role path, t ≠ .anchored role path
  | .fields t, e | .methods t, e => (Resolve.genericOf? t).isSome ∧
    ∀ b ∈ t.generics, ∃ vars, e.slot (.typeVariables b) = .resolved vars
  | .memberTypes t, _ => ∃ generic args enclosing, t = .parameterized generic args enclosing
  | .precedence _, _ => True

/-- What the value of a cache says of the environment it is found in: the supertypes of an instantiation
are instances of those that the generic type shows, and its methods are made from those of the generic type. -/
def Holds : (c : Cache) → c.Value → Env → Prop
  | .supertypes t, s, e => ∃ generic declared, Resolve.genericOf? t = some generic ∧
    e.Shows generic declared ∧ List.Forall₂ (e.Instance t.generics) declared.all s.all
  | .methods t, list, e => ∃ generic originals, Resolve.genericOf? t = some generic ∧
    e.slot (.methods generic) = .resolved originals ∧ List.Forall₂ (e.Specializes generic) originals list
  | _, _, _ => True

end Cache

namespace Env

def Awaits (e : Env) (c : Cache) : Prop := e.cache c = none ∧ c.Allows e

def introduce (e : Env) (x : Binding) : Env := (e.addBinding x).bindName x.name e.nextBinding

def unmiss (e : Env) (name : String) : Env :=
  { e with missing := e.missing.filter (· != name) }

def declare (e : Env) (x : Binding) : Env := (e.introduce x).unmiss x.name

def addMapping (e : Env) (m : Mapping) : Env := { e with mappings := e.mappings.push m }

def addRoleFile (e : Env) (team : BindingId) (unit : UnitId) (roles : List BindingId) : Env :=
  e.update team fun x =>
    { x with team := x.team.map fun m =>
        { roleFiles := m.roleFiles ++ [unit], roleFileRoles := m.roleFileRoles ++ roles } }

end Env

inductive Step : Nat → Env → Env → Prop
  | quiet {ℓ : Nat} {e e' : Env} : e.Same e' → Step ℓ e e'
  -- Names
  | declare {ℓ : Nat} {e : Env} {x : Binding} : 8 ≤ ℓ → x.isSource = true → x.IsBare →
    Step ℓ e (e.declare x)
  | load {ℓ : Nat} {e : Env} {x : Binding} {d : Descriptor} {name : String} :
    e.provider.find name = .ok (some d) → x.origin = .binary d → x.name = d.name → x.IsBare →
    e.lookup? d.name = none → Step ℓ e (e.introduce x)
  | otherName {ℓ : Nat} {e : Env} {b : BindingId} {d : Descriptor} {name : String} :
    e.provider.find name = .ok (some d) → e.lookup? name = none → e.lookup? d.name = some b →
    Step ℓ e (e.bindName name b)
  | standIn {ℓ : Nat} {e : Env} {name : String} {reason : ProblemReason} :
    Step ℓ e (e.addProblem (.standIn name reason) name reason)
  | corrupt {ℓ : Nat} {e : Env} {b : BindingId} {name : String} {cause : Descriptor.Error} :
    e.provider.find name = .error cause → e.lookup? name = none → e.StandsFor name b →
    Step ℓ e (e.bindName name b)
  | missing {ℓ : Nat} {e : Env} {name : String} : e.provider.find name = .ok none →
    e.lookup? name = none → Step ℓ e { e with missing := name :: e.missing }
  | roleFile {ℓ : Nat} {e : Env} {team : BindingId} {unit : UnitId} {roles : List BindingId} :
    8 ≤ ℓ → (∀ r ∈ roles, r.index < e.bindings.size) → Step ℓ e (e.addRoleFile team unit roles)
  -- What is kept
  | methods {ℓ : Nat} {e : Env} {methods : Array Method} : 5 ≤ ℓ →
    e.MethodsLast { e with methods } → (e.Linked → Env.Linked { e with methods }) →
    Step ℓ e { e with methods }
  | mapping {ℓ : Nat} {e : Env} {m : Mapping} : Step ℓ e (e.addMapping m)
  | store {ℓ : Nat} {e : Env} {c : Cache} {v : c.Value} : c.level ≤ ℓ → e.Awaits c → c.Holds v e →
    Step ℓ e (e.setCache c v)

/-- A run of the given level, from an environment to another one. A run may be aborted. -/
inductive Runs : Nat → Env → Option Abort → Env → Prop
  | done {ℓ : Nat} {e : Env} : Runs ℓ e none e
  | stop {ℓ : Nat} {e : Env} {cause : Abort} : cause.isReentrant = false →
    Runs ℓ e (some cause) e
  | reentrant {ℓ : Nat} {e : Env} {p : Part} {c : Component} {name : String} :
    p.component? = some c → p.level ≤ ℓ → e.slot p = .inProgress →
    Runs ℓ e (some (.reentrant name c)) e
  | step {ℓ : Nat} {e e' : Env} : Step ℓ e e' → Runs ℓ e none e'
  | seq {ℓ : Nat} {e e' e'' : Env} {r : Option Abort} : Runs ℓ e none e' → Runs ℓ e' r e'' →
    Runs ℓ e r e''
  | cleanup {ℓ : Nat} {e e' e'' : Env} {cause : Abort} : Runs ℓ e (some cause) e' →
    e'.Same e'' → Runs ℓ e (some cause) e''
  | resolve {ℓ : Nat} {e e' : Env} {p : Part} {v : p.Value} : p.level ≤ ℓ → e.Has p →
    e.slot p = .unresolved → Runs p.inner (e.setSlot p .inProgress) none e' → p.Allows e v e' →
    Runs ℓ e none (e'.setSlot p (.resolved v))
  | abort {ℓ : Nat} {e e' : Env} {p : Part} {cause : Abort} : p.level ≤ ℓ → e.Has p →
    e.slot p = .unresolved → Runs p.inner (e.setSlot p .inProgress) (some cause) e' →
    Runs ℓ e (some cause) e'

theorem Step.mono {ℓ m : Nat} {e e' : Env} (h : Step ℓ e e') (le : ℓ ≤ m) : Step m e e' := by
  cases h with
  | quiet same => exact .quiet same
  | declare level source bare => exact .declare (Nat.le_trans level le) source bare
  | load given origin name bare unbound => exact .load given origin name bare unbound
  | otherName given unbound bound => exact .otherName given unbound bound
  | standIn => exact .standIn
  | corrupt given unbound stands => exact .corrupt given unbound stands
  | missing given unbound => exact .missing given unbound
  | roleFile level inside => exact .roleFile (Nat.le_trans level le) inside
  | methods level lasts linked => exact .methods (Nat.le_trans level le) lasts linked
  | mapping => exact .mapping
  | store level awaits holds => exact .store (Nat.le_trans level le) awaits holds

theorem Runs.mono {ℓ m : Nat} {e e' : Env} {r : Option Abort} (h : Runs ℓ e r e') (le : ℓ ≤ m) :
    Runs m e r e' := by
  induction h with
  | done => exact .done
  | stop cause => exact .stop cause
  | reentrant component level begun => exact .reentrant component (Nat.le_trans level le) begun
  | step h => exact .step (h.mono le)
  | seq _ _ ih ih' => exact .seq (ih le) (ih' le)
  | cleanup _ same ih => exact .cleanup (ih le) same
  | resolve level has fresh run allows _ =>
    exact .resolve (Nat.le_trans level le) has fresh run allows
  | abort level has fresh run _ => exact .abort (Nat.le_trans level le) has fresh run

end TeamRoles
