import TeamRoles.Proofs.Pairing.Mapping
import TeamRoles.Proofs.Session.Reachable

/-!
The oracles of a session answer alike in both environments of a pair, and all that a session is asked to
do keeps the pairing.
-/

namespace TeamRoles

def Operation.Opens {α : Type} : Operation α → Prop
  | capture _ _ => True
  | _ => False

namespace Resolve

variable {p : Pairing}

theorem keeps_answer {α : Type} {q : Query α} : Keeps p (answer q) := by
  cases q with
  | findType name => exact keeps_findType
  | supertypes b => exact keeps_supertypes
  | typeVariables b => exact keeps_typeVariables
  | fields b => exact keeps_fields
  | methods b => exact keeps_methods
  | baseClass b => exact keeps_baseClass
  | fieldType f => exact keeps_fieldType
  | isSubtype sub sup => exact keeps_isSubtype
  | contains arg other => exact keeps_contains
  | isEquivalent a b => exact keeps_isEquivalent

theorem trusts_oracle (depth : Nat) : p.Trusts (oracle depth) := by
  induction depth with
  | zero => exact fun _ _ _ pairs => ⟨rfl, pairs⟩
  | succ depth ih => exact fun q e e' pairs => keeps_answer (oracle depth) ih e e' pairs

theorem Keeps.run {α : Type} {x : Resolve α} (h : Keeps p x) {e e' : Env} (pairs : p.Pairs e e') :
    p.Agree (x.run e) (x.run e') :=
  h (oracle maxDepth) (trusts_oracle maxDepth) e e' pairs

theorem keeps_checkDeferredBounds : Keeps p checkDeferredBounds := by
  refine .get_bind (fun _ _ => rfl) fun e _ => .bind ?_ fun _ => .forM fun _ _ => keeps_checkBound
  exact .modify fun _ _ => p.drain

theorem keeps_inheritedMethods {b : BindingId} : Keeps p (inheritedMethods b) := by
  refine Keeps.ask.bind fun _ => keeps_walk (fun t => ?_) _ _ fun _ _ => ?_
  · exact (keeps_typeSupertypes t).bind fun _ => .pure
  · exact keeps_typeMethods.bind fun _ => .pure

theorem keeps_checkOverride {b : BindingId} {inherited : List MethodId} {m : MethodId} :
    Keeps p (checkOverride b inherited m) := by
  refine .get_bind (fun _ _ => by simp only [Env.sameParameters_under]; rfl) fun e _ => .ite ?_ .pure
  refine .optionForM fun other => ?_
  extract_lets shown ret superRet rank
  have ranked : ∀ r, Keeps p (rank r) := fun _ => .ite keeps_reportFor .pure
  refine .ite (ranked ()) (Keeps.ask.bind fun _ => ?_)
  exact .ite (ranked ()) (keeps_reportFor.bind ranked)

theorem keeps_checkOverrides {b : BindingId} : Keeps p (checkOverrides b) := by
  refine keeps_inheritedMethods.bind fun inherited => .ite .pure ?_
  exact Keeps.ask.bind fun _ => .forM fun _ _ => keeps_checkOverride

theorem keeps_resolveAllComponents {b : BindingId} : Keeps p (resolveAllComponents b) :=
  Keeps.ask.discard.bind fun _ => keeps_memberTypes.discard.bind fun _ =>
    Keeps.ask.discard.bind fun _ => Keeps.ask.discard.bind fun _ =>
      Keeps.ask.discard.bind fun _ => Keeps.ask.discard

theorem keeps_resolveFrom {fuel next : Nat} : Keeps p (resolveFrom fuel next) := by
  induction fuel generalizing next with
  | zero => exact .get_bind (fun _ _ => rfl) fun _ _ => .ite .pure .throw
  | succ fuel ih =>
    refine .get_bind (fun _ _ => rfl) fun _ _ => .ite .pure ?_
    exact keeps_resolveAllComponents.bind fun _ => ih

theorem keeps_checkRole {b : BindingId} : Keeps p (checkRole b) := by
  refine .get_bind (fun _ _ => rfl) fun _ _ => .ite (keeps_mappings.discard.bind fun _ => ?_) .pure
  exact Keeps.ask.bind fun _ => .forM fun _ _ => keeps_checkBaseCalls

theorem keeps_checkType {b : BindingId} : Keeps p (checkType b) := by
  refine .get_bind (fun _ _ => rfl) fun _ _ => .ite ?_ keeps_checkOverrides
  exact keeps_precedence.discard.bind fun _ => keeps_checkOverrides

theorem keeps_resolve : Keeps p resolve := by
  refine keeps_checkPackageCollisions.bind fun _ => .get_bind (fun _ _ => rfl) fun _ _ => ?_
  refine .bind (.forM fun _ _ => keeps_imports.discard) fun _ => Keeps.depth.bind fun _ => ?_
  refine keeps_resolveFrom.bind fun _ => keeps_checkDeferredBounds.bind fun _ => ?_
  refine .bind (.forM fun _ _ => keeps_verifyBaseImports) fun _ => .get_bind ?_ fun _ _ => ?_
  · intro e r
    have declared : declaredTypes (e.under r) = declaredTypes e := funext fun _ => declaredTypes_under
    rw [declared]
  · exact .bind (.forM fun _ _ => keeps_checkRole) fun _ => .forM fun _ _ => keeps_checkType

theorem keeps_changeView {change : Method → Except ViewError Method} {m : MethodId} :
    Keeps p (changeView change m) := by
  refine .get_bind (fun _ _ => rfl) fun e _ => ?_
  split
  · exact keeps_updateMethod
  · exact .throw

theorem keeps_perform (builds : p.Builds) {α : Type} (op : Operation α) (opens : op.Opens → p.Opens) :
    Keeps p op.perform := by
  cases op with
  | addUnits units => exact keeps_addUnits builds
  | buildUnit unit => exact keeps_buildUnit builds
  | resolve => exact keeps_resolve
  | imports unit => exact keeps_imports
  | verifyBaseImports unit => exact keeps_verifyBaseImports
  | checkPackageCollisions => exact keeps_checkPackageCollisions
  | checkDeferredBounds => exact keeps_checkDeferredBounds
  | checkOverrides b => exact keeps_checkOverrides
  | checkBaseCalls m => exact keeps_checkBaseCalls
  | ask q => exact .ask
  | findType name => exact keeps_findType
  | wellKnown name => exact keeps_wellKnown
  | memberTypes b => exact keeps_memberTypes
  | tsuperRoles role => exact keeps_tsuperRoles
  | mappings role => exact keeps_mappings
  | callins role => exact keeps_callins
  | precedence team => exact keeps_precedence
  | resolveAllComponents b => exact keeps_resolveAllComponents
  | reaches b target => exact keeps_reaches
  | findMemberType b simple => exact keeps_findMemberType
  | findMethods b name => exact keeps_findMethods
  | findField b name => exact keeps_findField
  | typeSupertypes t => exact keeps_typeSupertypes t
  | typeFields t => exact keeps_typeFields
  | typeMethods t => exact keeps_typeMethods
  | typeMemberTypes t => exact keeps_typeMemberTypes
  | substitutionFor t => exact keeps_substitutionFor t
  | substitute s t => exact keeps_substitute
  | erasure t => exact keeps_erasure
  | capture t site => exact keeps_capture (opens trivial)
  | baseClassOf t => exact keeps_baseClassOf
  | isCompatible source target => exact keeps_isCompatible
  | canLift source target => exact keeps_canLift
  | canLower source target => exact keeps_canLower
  | enhancingArgTypes => exact keeps_enhancingArgTypes
  | enterSourceView m => exact keeps_changeView
  | exitSourceView m => exact keeps_changeView

end Resolve

end TeamRoles
