import TeamRoles.Proofs.Scoped.Mapping
import TeamRoles.Proofs.Scoped.Methods
import TeamRoles.Proofs.Session.Reachable

/-!
A session keeps everything in scope, and the methods that are made part of a type are told apart.
-/

namespace TeamRoles

namespace Resolve

variable {e : Env}

mutual

theorem declareType_from {e : Env} {unit : UnitId} {enclosing : Option BindingId} {qualified package : String}
    (known : ∀ b ∈ enclosing, e.HasType b) (decl : TypeDecl) :
    From e (declareType unit enclosing qualified package decl) fun b d => d.HasType b := by
  match decl with
  | ⟨_, _, _, _, _, _, _, _, _, memberTypes, _, _, _, _⟩ =>
    rw [declareType]
    refine (addBinding_from (Env.fits_of_bare rfl rfl known) ?_).bind fun b d _ inside => ?_
    · rintro _ ⟨⟩
    refine .after (.quiet ?_) fun _ d₁ h₁ => ?_
    · exact fun _ => rfl
    have inside := h₁.hasType inside
    refine (bindName_from inside).bind fun _ d₂ h₂ _ => .after calm_attachModels fun _ d₃ h₃ => ?_
    have inside := (h₂.trans h₃).hasType inside
    exact (declareMembers_from inside memberTypes).bind fun _ _ le _ => .pure fun _ hc => (le.trans hc).hasType inside

theorem declareMembers_from {e : Env} {unit : UnitId} {outer : BindingId} {qualified package : String}
    {seen : List String} (inside : e.HasType outer) (decls : List TypeDecl) :
    From e (declareMembers unit outer qualified package seen decls) fun _ _ => True := by
  match decls with
  | [] => exact Calm.pure e
  | decl :: rest =>
    rw [declareMembers]
    refine .ite (fun _ => .after calm_reportInUnit fun _ d le => declareMembers_from (le.hasType inside) rest) fun _ => ?_
    have declared : From e (discard (declareType unit (some outer) (qualified ++ "$" ++ decl.name) package decl))
        fun _ _ => True := by
      refine (declareType_from ?_ decl).bind fun _ _ _ _ => .pure fun _ _ => trivial
      rintro _ ⟨⟩
      exact inside
    exact declared.bind fun _ d le _ => declareMembers_from (le.hasType inside) rest

end

theorem calm_isDeclared {qualified : String} : Calm (isDeclared qualified) := .bind .get fun _ => .pure

theorem declaration_from {unit : UnitId} {enclosing : Option BindingId} {qualified package : String}
    {decl : TypeDecl} {p : ProblemId} {arguments : List String} {repeated : Bool}
    (known : ∀ b ∈ enclosing, e.HasType b) :
    From e (if repeated then do
        reportInUnit unit p decl.span arguments
        return none
      else return some (← declareType unit enclosing qualified package decl))
      fun found d => ∀ b ∈ found, d.HasType b := by
  refine .ite (fun _ => .after calm_reportInUnit fun _ _ _ => .pure fun _ _ => nofun) fun _ => ?_
  refine (declareType_from known decl).bind fun b _ _ inside => .pure fun _ hc _ same => ?_
  cases same
  exact hc.hasType inside

theorem buildRegularUnit_from {unit : UnitId} {u : UnitDecl} :
    From e (buildRegularUnit unit u) fun types d => ∀ b ∈ types, d.HasType b := by
  refine .filterMapM (fun decl _ => ?_) lasting_hasType
  extract_lets qualified declare
  have declared (r : PUnit) (e : Env) : From e (declare r) fun found d => ∀ b ∈ found, d.HasType b :=
    .after calm_isDeclared fun _ _ _ => declaration_from nofun
  exact .ite (fun _ => .after calm_reportInUnit fun r d _ => declared r d) fun _ => declared () e

theorem buildRoles_from {unit : UnitId} {u : UnitDecl} {team : BindingId} (inside : e.HasType team) :
    From e (buildRoles unit u team) fun roles d => ∀ b ∈ roles, d.HasType b := by
  refine .filterMapM (fun decl _ => .get_bind fun d le => .after calm_isDeclared fun _ c hc => ?_) lasting_hasType
  refine declaration_from ?_
  rintro _ ⟨⟩
  exact (le.trans hc).hasType inside

theorem buildRoleFile_from {unit : UnitId} {u : UnitDecl} {teamName : String} :
    From e (buildRoleFile unit u teamName) fun types d => ∀ b ∈ types, d.HasType b := by
  refine ask_findType.bind fun found d _ known => .get_bind fun c hc => ?_
  split
  · exact .after calm_reportInUnit fun _ _ _ => .pure fun _ _ => nofun
  · next team same =>
    have inside : c.HasType team := hc.hasType (known team (Option.mem_filter_iff.1 same).1)
    extract_lets build
    have built (r : PUnit) (e : Env) (inside : e.HasType team) :
        From e (build r) fun types d => ∀ b ∈ types, d.HasType b := by
      refine (buildRoles_from inside).bind fun roles d _ known => (updateBinding_from ?_).bind fun _ _ le _ =>
        .pure fun _ hc b hb => (le.trans hc).hasType (known b hb)
      refine ⟨fun _ => rfl, fun c x le fits => { fits with roles := fun model given r hr => ?_ }, fun _ _ => id⟩
      obtain ⟨old, was, rfl⟩ := Option.map_eq_some_iff.1 given
      rcases List.mem_append.1 hr with here | new
      · exact fits.roles old was r here
      · exact le.hasType (known r new)
    exact .ite (fun _ => built () c inside) fun _ => .after calm_reportInUnit fun r d le => built r d (le.hasType inside)

theorem calm_buildUnit {u : UnitDecl} : Calm (buildUnit u) := by
  refine From.calm (Q := fun _ _ => True) fun e => .get_bind fun d _ => ?_
  have added : From d (modify fun e => { e with units := e.units.push { decl := u } }) fun _ _ => True :=
    .modify fun _ le => le.closed.addUnit ⟨List.forall_mem_nil _, nofun⟩
  refine added.bind fun _ c _ _ => ?_
  extract_lets finish
  have finished (types : List BindingId) (e : Env) (_ : c.Develops e) (known : ∀ b ∈ types, e.HasType b) :
      From e (finish types) fun _ _ => True := by
    refine .get_bind fun d le => (updateUnit_from ?_).bind fun _ d _ _ => Calm.pure d
    exact fun _ x hc fits => ⟨fun b hb => (le.trans hc).hasType (known b hb), fits.imports⟩
  split
  · exact buildRoleFile_from.bind finished
  · exact buildRegularUnit_from.bind finished

theorem calm_addUnit {u : UnitDecl} : Calm (addUnit u) :=
  .bind calm_buildUnit fun _ => .bind (.quiet fun _ => rfl) fun _ => .pure

theorem calm_addUnits {units : List UnitDecl} : Calm (addUnits units) := .mapM fun _ => calm_addUnit

theorem calm_checkPackageCollisions : Calm checkPackageCollisions :=
  .bind .get fun _ => .forM fun _ => .ite .pure calm_reportFor

theorem calm_inheritedMethods {b : BindingId} : Calm (inheritedMethods b) := by
  refine .bind (.ask _) fun _ => calm_walk (fun t => ?_) _ _ fun _ _ => ?_
  · exact .bind (calm_typeSupertypes t) fun _ => .pure
  · exact .bind calm_typeMethods fun _ => .pure

theorem calm_checkOverride {b : BindingId} {inherited : List MethodId} {m : MethodId} :
    Calm (checkOverride b inherited m) := by
  refine .bind .get fun e => .ite ?_ .pure
  refine .optionForM fun other => ?_
  extract_lets shown ret superRet rank
  have ranked (r : PUnit) : Calm (rank r) := .ite calm_reportFor .pure
  refine .ite (ranked ()) (.bind (.ask _) fun _ => ?_)
  exact .ite (ranked ()) (.bind calm_reportFor ranked)

theorem calm_checkOverrides {b : BindingId} : Calm (checkOverrides b) := by
  refine .bind calm_inheritedMethods fun inherited => .ite .pure ?_
  exact .bind (.ask _) fun _ => .forM fun _ => calm_checkOverride

theorem calm_resolveAllComponents {b : BindingId} : Calm (resolveAllComponents b) :=
  .bind (.discard (.ask _)) fun _ => .bind (.discard calm_memberTypes) fun _ =>
    .bind (.discard (.ask _)) fun _ => .bind (.discard (.ask _)) fun _ =>
      .bind (.discard (.ask _)) fun _ => .discard (.ask _)

theorem calm_resolveFrom {fuel next : Nat} : Calm (resolveFrom fuel next) := by
  induction fuel generalizing next with
  | zero => exact .bind .get fun _ => .ite .pure .throw
  | succ fuel ih => exact .bind .get fun _ => .ite .pure (.bind calm_resolveAllComponents fun _ => ih)

theorem calm_checkRole {b : BindingId} : Calm (checkRole b) := by
  refine .bind .get fun _ => .ite (.bind (.discard calm_mappings) fun _ => ?_) .pure
  exact .bind (.ask _) fun _ => .forM fun _ => calm_checkBaseCalls

theorem calm_checkType {b : BindingId} : Calm (checkType b) := by
  refine .bind .get fun _ => ?_
  exact .ite (.bind (.discard calm_precedence) fun _ => calm_checkOverrides) calm_checkOverrides

theorem calm_resolve : Calm resolve := by
  refine .bind calm_checkPackageCollisions fun _ => .bind .get fun _ => ?_
  refine .bind (.forM fun _ => .discard calm_imports) fun _ => .bind .depth fun _ => ?_
  refine .bind calm_resolveFrom fun _ => .bind calm_checkDeferredBounds fun _ => ?_
  refine .bind (.forM fun _ => calm_verifyBaseImports) fun _ => .bind .get fun _ => ?_
  exact .bind (.forM fun _ => calm_checkRole) fun _ => .forM fun _ => calm_checkType

theorem calm_changeView {change : Method → Except ViewError Method} {m : MethodId}
    (fixed : ∀ x y, change x = .ok y → y.fixed = x.fixed) : Calm (changeView change m) := by
  refine fun e o _ d hd => ⟨?_, fun _ _ => trivial⟩
  rw [changeView, bind_apply_ok (show (get : Resolve Env) o d = (.ok d, d) from rfl)]
  cases same : change (d.method m) with
  | ok changed => exact hd.closed.updateMethod (fixed _ changed same)
  | error cause => exact .refl hd.closed

theorem calm_answer {α : Type} (q : Query α) : Calm (answer q) := by
  cases q with
  | findType name => exact calm_findType
  | supertypes b => exact calm_supertypes
  | typeVariables b => exact calm_typeVariables
  | fields b => exact calm_fields
  | methods b => exact calm_methods
  | baseClass b => exact calm_baseClass
  | fieldType f => exact fun _ => fieldType_from.quietly
  | isSubtype sub sup => exact calm_isSubtype
  | contains arg other => exact calm_contains
  | isEquivalent a b => exact calm_isEquivalent

theorem sound_oracle (depth : Nat) : (oracle depth).Sound := by
  induction depth with
  | zero => exact ⟨lawful_oracle 0, fun _ _ => .refl, fun _ _ _ _ _ => nofun⟩
  | succ depth ih =>
    refine ⟨lawful_oracle (depth + 1), fun q e closed => ?_, fun f e t closed known answered => ?_⟩
    · exact (calm_answer q e (oracle depth) ih e (.refl closed)).1
    · exact (fieldType_from (oracle depth) ih e (.refl closed)).2 t answered known

theorem Calm.run {α : Type} {x : Resolve α} (h : Calm x) (closed : e.Scoped) : e.Develops (x.run e).2 :=
  (h e (oracle maxDepth) (sound_oracle maxDepth) e (.refl closed)).1

end Resolve

open Resolve in
theorem Operation.calm_perform {α : Type} (op : Operation α) : Calm op.perform := by
  cases op with
  | addUnits units => exact calm_addUnits
  | buildUnit unit => exact calm_buildUnit
  | resolve => exact calm_resolve
  | imports unit => exact calm_imports
  | verifyBaseImports unit => exact calm_verifyBaseImports
  | checkPackageCollisions => exact calm_checkPackageCollisions
  | checkDeferredBounds => exact calm_checkDeferredBounds
  | checkOverrides b => exact calm_checkOverrides
  | checkBaseCalls m => exact calm_checkBaseCalls
  | ask q => exact .ask q
  | findType name => exact calm_findType
  | wellKnown name => exact calm_wellKnown
  | memberTypes b => exact calm_memberTypes
  | tsuperRoles role => exact calm_tsuperRoles
  | mappings role => exact calm_mappings
  | callins role => exact calm_callins
  | precedence team => exact calm_precedence
  | resolveAllComponents b => exact calm_resolveAllComponents
  | reaches b target => exact calm_reaches
  | findMemberType b simple => exact calm_findMemberType
  | findMethods b name => exact calm_findMethods
  | findField b name => exact calm_findField
  | typeSupertypes t => exact calm_typeSupertypes t
  | typeFields t => exact calm_typeFields
  | typeMethods t => exact calm_typeMethods
  | typeMemberTypes t => exact calm_typeMemberTypes
  | substitutionFor t => exact calm_substitutionFor t
  | substitute s t => exact calm_substitute
  | erasure t => exact calm_erasure
  | capture t site => exact calm_capture
  | baseClassOf t => exact calm_baseClassOf
  | isCompatible source target => exact calm_isCompatible
  | canLift source target => exact calm_canLift
  | canLower source target => exact calm_canLower
  | enhancingArgTypes => exact From.calm fun _ => enhancingArgTypes_from
  | enterSourceView m =>
    refine calm_changeView fun x y changed => ?_
    rw [Method.enterSourceView] at changed
    split at changed <;> cases changed
    rfl
  | exitSourceView m =>
    refine calm_changeView fun x y changed => ?_
    rw [Method.exitSourceView] at changed
    split at changed <;> cases changed
    rfl

namespace Env

variable {provider : Provider} {options : Options} {e : Env}

theorem scoped_new (provider : Provider) (options : Options) (config : SeverityConfig) :
    ({ options, provider, diagnostics := { config } } : Env).Scoped where
  bindings _ := by
    constructor
    all_goals
      intro list resolved
      cases resolved
  units _ := ⟨List.forall_mem_nil _, nofun⟩
  bounds _ := List.forall_mem_nil _
  byName := List.forall_mem_nil _
  problems := List.forall_mem_nil _

theorem Reachable.scoped (h : Reachable provider options e) :
    e.Scoped ∧ ∀ b list, (e.binding b).methods = .resolved list → e.Distinct list := by
  induction h with
  | new made =>
    obtain ⟨config, rfl⟩ := eq_of_new made
    refine ⟨scoped_new provider options config, fun b list resolved => ?_⟩
    cases resolved
  | @step e α op _ ih =>
    obtain ⟨closed, distinct⟩ := ih
    have le := op.calm_perform.run closed
    refine ⟨le.closed, fun b list resolved => ?_⟩
    rcases le.lists b list resolved with known | differ
    · exact le.distinct closed ((closed.bindings b).methods list known) (distinct b list known)
    · exact differ

end Env

end TeamRoles
