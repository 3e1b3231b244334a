import TeamRoles.Proofs.Session.Reachable
import TeamRoles.Proofs.Views.Members

/-!
Views in a session. Of all its operations only those that switch the view of a method change what it shows.
-/

namespace TeamRoles

namespace Resolve

variable {b : BindingId} {unit : UnitId}

theorem keepsViews_bindName {name : String} : KeepsViews (bindName name b) :=
  .modify fun _ => .of_methods_eq rfl rfl (fun _ => List.mem_cons_of_mem _) (fun _ => id) rfl

mutual

theorem keepsViews_declareType {enclosing : Option BindingId} {qualified package : String} (decl : TypeDecl) :
    KeepsViews (declareType unit enclosing qualified package decl) := by
  match decl with
  | ⟨_, _, _, _, _, _, _, _, _, memberTypes, _, _, _, _⟩ =>
    rw [declareType]
    refine KeepsViews.bind (fun _ _ _ => .of_methods_eq rfl rfl (fun _ => id) (fun _ => id) rfl) fun b => ?_
    refine .bind ?_ fun _ => keepsViews_bindName.bind fun _ => ?_
    · exact keepsViews_elsewhere (fun _ => rfl) (fun _ => rfl) (fun _ => rfl) (fun _ => rfl) fun _ => rfl
    · refine KeepsViews.bind (.get_bind fun _ => keepsViews_updateBinding) fun _ => ?_
      exact (keepsViews_declareMembers memberTypes).bind fun _ => .pure

theorem keepsViews_declareMembers {outer : BindingId} {qualified package : String} {seen : List String}
    (decls : List TypeDecl) : KeepsViews (declareMembers unit outer qualified package seen decls) := by
  match decls with
  | [] => exact .pure
  | decl :: rest =>
    rw [declareMembers]
    refine .ite ?_ ((keepsViews_declareType decl).discard.bind fun _ => keepsViews_declareMembers rest)
    exact (KeepsViews.of_lawful lawful_reportInUnit).bind fun _ => keepsViews_declareMembers rest

end

theorem keepsViews_buildRegularUnit {u : UnitDecl} : KeepsViews (buildRegularUnit unit u) := by
  refine .filterMapM fun decl => ?_
  extract_lets qualified declare
  have declared : ∀ r, KeepsViews (declare r) := by
    refine fun _ => (KeepsViews.of_lawful lawful_isDeclared).bind fun _ => .ite ?_ ?_
    · exact (KeepsViews.of_lawful lawful_reportInUnit).bind fun _ => .pure
    · exact (keepsViews_declareType decl).bind fun _ => .pure
  exact .ite ((KeepsViews.of_lawful lawful_reportInUnit).bind declared) (declared ())

theorem keepsViews_buildRoles {u : UnitDecl} {team : BindingId} : KeepsViews (buildRoles unit u team) := by
  refine .filterMapM fun decl => .get_bind fun e => ?_
  refine (KeepsViews.of_lawful lawful_isDeclared).bind fun _ => .ite ?_ ?_
  · exact (KeepsViews.of_lawful lawful_reportInUnit).bind fun _ => .pure
  · exact (keepsViews_declareType decl).bind fun _ => .pure

theorem keepsViews_buildRoleFile {u : UnitDecl} {teamName : String} :
    KeepsViews (buildRoleFile unit u teamName) := by
  refine KeepsViews.ask.bind fun _ => .get_bind fun e => ?_
  split
  · exact (KeepsViews.of_lawful lawful_reportInUnit).bind fun _ => .pure
  · extract_lets build
    have built : ∀ r, KeepsViews (build r) := fun _ =>
      keepsViews_buildRoles.bind fun _ => keepsViews_updateBinding.bind fun _ => .pure
    exact .ite (built ()) ((KeepsViews.of_lawful lawful_reportInUnit).bind built)

theorem keepsViews_buildUnit {u : UnitDecl} : KeepsViews (buildUnit u) := by
  refine .get_bind fun e => .bind ?_ fun _ => ?_
  · exact keepsViews_elsewhere (fun _ => rfl) (fun _ => rfl) (fun _ => rfl) (fun _ => rfl) fun _ => rfl
  · extract_lets finish
    have finished : ∀ types, KeepsViews (finish types) := fun _ =>
      .get_bind fun _ => keepsViews_updateUnit.bind fun _ => .pure
    split
    · exact keepsViews_buildRoleFile.bind finished
    · exact keepsViews_buildRegularUnit.bind finished

theorem keepsViews_addUnit {u : UnitDecl} : KeepsViews (addUnit u) := by
  refine keepsViews_buildUnit.bind fun _ => .bind ?_ fun _ => .pure
  exact keepsViews_elsewhere (fun _ => rfl) (fun _ => rfl) (fun _ => rfl) (fun _ => rfl) fun _ => rfl

theorem keepsViews_checkOverrides : KeepsViews (checkOverrides b) := by
  have inherited : KeepsViews (inheritedMethods b) := by
    refine KeepsViews.ask.bind fun _ => keepsViews_walk (fun t => ?_) _ _ fun _ _ => ?_
    · exact (KeepsViews.of_lawful (lawful_typeSupertypes t)).bind fun _ => .pure
    · exact keepsViews_typeMethods.bind fun _ => .pure
  refine inherited.bind fun _ => .ite .pure (KeepsViews.ask.bind fun _ => .forM fun _ => ?_)
  exact .of_lawful lawful_checkOverride

theorem keepsViews_resolveAllComponents : KeepsViews (resolveAllComponents b) :=
  KeepsViews.ask.discard.bind fun _ => (KeepsViews.of_lawful lawful_memberTypes).discard.bind fun _ =>
    KeepsViews.ask.discard.bind fun _ => KeepsViews.ask.discard.bind fun _ =>
      KeepsViews.ask.discard.bind fun _ => KeepsViews.ask.discard

theorem keepsViews_resolveFrom {fuel next : Nat} : KeepsViews (resolveFrom fuel next) := by
  induction fuel generalizing next with
  | zero => exact .get_bind fun _ => .ite .pure .throw
  | succ fuel ih => exact .get_bind fun _ => .ite .pure (keepsViews_resolveAllComponents.bind fun _ => ih)

theorem keepsViews_checkRole : KeepsViews (checkRole b) := by
  refine .get_bind fun _ => .ite (keepsViews_mappings.discard.bind fun _ => ?_) .pure
  exact KeepsViews.ask.bind fun _ => .forM fun _ => .of_lawful lawful_checkBaseCalls

theorem keepsViews_checkType : KeepsViews (checkType b) :=
  .get_bind fun _ =>
    .ite (keepsViews_precedence.discard.bind fun _ => keepsViews_checkOverrides) keepsViews_checkOverrides

theorem keepsViews_resolve : KeepsViews resolve := by
  refine (KeepsViews.of_lawful lawful_checkPackageCollisions).bind fun _ => .get_bind fun e => ?_
  refine (KeepsViews.of_lawful (.forM fun _ => .discard lawful_imports)).bind fun _ => ?_
  refine (KeepsViews.of_lawful Lawful.depth).bind fun _ => keepsViews_resolveFrom.bind fun _ => ?_
  refine (KeepsViews.of_lawful lawful_checkDeferredBounds).bind fun _ => ?_
  refine (KeepsViews.of_lawful (.forM fun _ => lawful_verifyBaseImports)).bind fun _ => .get_bind fun e => ?_
  exact KeepsViews.bind (.forM fun _ => keepsViews_checkRole) fun _ => .forM fun _ => keepsViews_checkType

theorem keepsViews_answer {α : Type} (q : Query α) : KeepsViews (answer q) := by
  cases q with
  | methods b => exact keepsViews_methods
  | findType name => exact .of_lawful lawful_findType
  | supertypes b => exact .of_lawful supertypes_triple.lawful
  | typeVariables b => exact .of_lawful typeVariables_triple.lawful
  | fields b => exact .of_lawful fields_triple.lawful
  | baseClass b => exact .of_lawful baseClass_triple.lawful
  | fieldType f => exact .of_lawful fieldType_triple.lawful
  | isSubtype sub sup => exact .of_lawful lawful_isSubtype
  | contains arg other => exact .of_lawful lawful_contains
  | isEquivalent a b => exact .of_lawful lawful_isEquivalent

theorem keepsViews_oracle (depth : Nat) : (oracle depth).KeepsViews := by
  induction depth with
  | zero => exact ⟨lawful_oracle 0, fun _ e => .refl e⟩
  | succ depth ih => exact ⟨lawful_oracle (depth + 1), fun q e => keepsViews_answer q (oracle depth) ih e⟩

theorem KeepsViews.run {α : Type} {x : Resolve α} (h : KeepsViews x) (e : Env) : e.ViewsLast (x.run e).2 :=
  h (oracle maxDepth) (keepsViews_oracle maxDepth) e

end Resolve

inductive Switch where
  | enter (m : MethodId)
  | exit (m : MethodId)
  deriving DecidableEq

namespace Operation

def switch? : {α : Type} → Operation α → Option Switch
  | _, .enterSourceView m => some (.enter m)
  | _, .exitSourceView m => some (.exit m)
  | _, _ => none

open Resolve in
theorem keepsViews_perform {α : Type} {op : Operation α} (other : op.switch? = none) : KeepsViews op.perform := by
  cases op with
  | addUnits units => exact .mapM fun _ => keepsViews_addUnit
  | buildUnit unit => exact keepsViews_buildUnit
  | resolve => exact keepsViews_resolve
  | imports unit => exact .of_lawful lawful_imports
  | verifyBaseImports unit => exact .of_lawful lawful_verifyBaseImports
  | checkPackageCollisions => exact .of_lawful lawful_checkPackageCollisions
  | checkDeferredBounds => exact .of_lawful lawful_checkDeferredBounds
  | checkOverrides b => exact keepsViews_checkOverrides
  | checkBaseCalls m => exact .of_lawful lawful_checkBaseCalls
  | ask q => exact .ask
  | findType name => exact .of_lawful lawful_findType
  | wellKnown name => exact .of_lawful lawful_wellKnown
  | memberTypes b => exact .of_lawful lawful_memberTypes
  | tsuperRoles role => exact .of_lawful lawful_tsuperRoles
  | mappings role => exact keepsViews_mappings
  | callins role => exact keepsViews_callins
  | precedence team => exact keepsViews_precedence
  | resolveAllComponents b => exact keepsViews_resolveAllComponents
  | reaches b target => exact .of_lawful lawful_reaches
  | findMemberType b simple => exact .of_lawful lawful_findMemberType
  | findMethods b name => exact keepsViews_findMethods
  | findField b name => exact .of_lawful lawful_findField
  | typeSupertypes t => exact .of_lawful (lawful_typeSupertypes t)
  | typeFields t => exact keepsViews_typeFields
  | typeMethods t => exact keepsViews_typeMethods
  | typeMemberTypes t => exact keepsViews_typeMemberTypes
  | substitutionFor t => exact .of_lawful (lawful_substitutionFor t)
  | substitute s t => exact .of_lawful lawful_substitute
  | erasure t => exact .of_lawful lawful_erasure
  | capture t site => exact .of_lawful lawful_capture
  | baseClassOf t => exact .of_lawful lawful_baseClassOf
  | isCompatible source target => exact .of_lawful lawful_isCompatible
  | canLift source target => exact .of_lawful lawful_canLift
  | canLower source target => exact .of_lawful lawful_canLower
  | enhancingArgTypes => exact .of_lawful lawful_enhancingArgTypes
  | enterSourceView m => cases other
  | exitSourceView m => cases other

end Operation

end TeamRoles
