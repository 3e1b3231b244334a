import TeamRoles.Proofs.Env.Range
import TeamRoles.Proofs.Lawful.Session

/-!
The operations of a session, and the environments that they lead to from a new one in any order.
-/

namespace TeamRoles

/-- What a session can be asked to do, by the type of its answers. -/
inductive Operation : Type → Type 1 where
  -- Units
  | addUnits (units : List UnitDecl) : Operation (List UnitId)
  | buildUnit (unit : UnitDecl) : Operation UnitId
  | resolve : Operation Unit
  | imports (unit : UnitId) : Operation Imports
  | verifyBaseImports (unit : UnitId) : Operation Unit
  | checkPackageCollisions : Operation Unit
  | checkDeferredBounds : Operation Unit
  | checkOverrides (b : BindingId) : Operation Unit
  | checkBaseCalls (m : MethodId) : Operation Unit
  -- Types and their components
  | ask {α : Type} (q : Query α) : Operation α
  | findType (name : String) : Operation (Option BindingId)
  | wellKnown (name : WellKnownNames → String) : Operation BindingId
  | memberTypes (b : BindingId) : Operation (List BindingId)
  | tsuperRoles (role : BindingId) : Operation (List BindingId)
  | mappings (role : BindingId) : Operation (List MappingId)
  | callins (role : BindingId) : Operation (List MappingId)
  | precedence (team : BindingId) : Operation PrecedenceTable
  | resolveAllComponents (b : BindingId) : Operation Unit
  -- Searches
  | reaches (b target : BindingId) : Operation Bool
  | findMemberType (b : BindingId) (simple : String) : Operation (Option BindingId)
  | findMethods (b : BindingId) (name : String) : Operation (List MethodId)
  | findField (b : BindingId) (name : String) : Operation (Option FieldId)
  -- Types as they are used
  | typeSupertypes (t : Ty) : Operation Supertypes
  | typeFields (t : Ty) : Operation (List FieldId)
  | typeMethods (t : Ty) : Operation (List MethodId)
  | typeMemberTypes (t : Ty) : Operation (List Ty)
  | substitutionFor (t : Ty) : Operation Substitution
  | substitute (s : Substitution) (t : Ty) : Operation Ty
  | erasure (t : Ty) : Operation Ty
  | capture (t : Ty) (site : Span) : Operation Ty
  | baseClassOf (t : Ty) : Operation (Option Ty)
  | isCompatible (source target : Ty) : Operation Bool
  | canLift (source target : Ty) : Operation Bool
  | canLower (source target : Ty) : Operation Bool
  -- Signatures of callin methods
  | enhancingArgTypes : Operation (List Ty)
  | enterSourceView (m : MethodId) : Operation Unit
  | exitSourceView (m : MethodId) : Operation Unit

namespace Resolve

theorem lawful_changeView {ℓ : Nat} {change : Method → Except ViewError Method} {m : MethodId}
    (settled : ∀ x y, change x = .ok y → y.settled = x.settled) :
    Lawful (ℓ + 5) (changeView change m) := by
  refine Triple.lawful (Q := fun _ _ => True) (.get_bind fun e => ?_)
  split
  · next changed same =>
    refine updateMethod_triple.pre ?_
    rintro _ ⟨rfl, -⟩
    exact ⟨.of_settled (settled _ changed same), trivial⟩
  · exact .throw rfl

end Resolve

namespace Operation

def perform {α : Type} : Operation α → Resolve α
  | addUnits units => Resolve.addUnits units
  | buildUnit unit => Resolve.buildUnit unit
  | resolve => Resolve.resolve
  | imports unit => Resolve.imports unit
  | verifyBaseImports unit => Resolve.verifyBaseImports unit
  | checkPackageCollisions => Resolve.checkPackageCollisions
  | checkDeferredBounds => Resolve.checkDeferredBounds
  | checkOverrides b => Resolve.checkOverrides b
  | checkBaseCalls m => Resolve.checkBaseCalls m
  | ask q => Resolve.ask q
  | findType name => Resolve.findType name
  | wellKnown name => Resolve.wellKnown name
  | memberTypes b => Resolve.memberTypes b
  | tsuperRoles role => Resolve.tsuperRoles role
  | mappings role => Resolve.mappings role
  | callins role => Resolve.callins role
  | precedence team => Resolve.precedence team
  | resolveAllComponents b => Resolve.resolveAllComponents b
  | reaches b target => Resolve.reaches b target
  | findMemberType b simple => Resolve.findMemberType b simple
  | findMethods b name => Resolve.findMethods b name
  | findField b name => Resolve.findField b name
  | typeSupertypes t => Resolve.typeSupertypes t
  | typeFields t => Resolve.typeFields t
  | typeMethods t => Resolve.typeMethods t
  | typeMemberTypes t => Resolve.typeMemberTypes t
  | substitutionFor t => Resolve.substitutionFor t
  | substitute s t => Resolve.substitute s t
  | erasure t => Resolve.erasure t
  | capture t site => Resolve.capture t site
  | baseClassOf t => Resolve.baseClassOf t
  | isCompatible source target => Resolve.isCompatible source target
  | canLift source target => Resolve.canLift source target
  | canLower source target => Resolve.canLower source target
  | enhancingArgTypes => Resolve.enhancingArgTypes
  | enterSourceView m => Resolve.changeView Method.enterSourceView m
  | exitSourceView m => Resolve.changeView Method.exitSourceView m

open Resolve in
theorem lawful_perform {α : Type} (op : Operation α) : Lawful 8 op.perform := by
  cases op with
  | addUnits units => exact lawful_addUnits
  | buildUnit unit => exact lawful_buildUnit
  | resolve => exact lawful_resolve
  | imports unit => exact lawful_imports
  | verifyBaseImports unit => exact lawful_verifyBaseImports
  | checkPackageCollisions => exact lawful_checkPackageCollisions
  | checkDeferredBounds => exact lawful_checkDeferredBounds
  | checkOverrides b => exact lawful_checkOverrides
  | checkBaseCalls m => exact lawful_checkBaseCalls
  | ask q => cases q <;> exact .ask _ (by simp)
  | findType name => exact lawful_findType
  | wellKnown name => exact lawful_wellKnown
  | memberTypes b => exact lawful_memberTypes
  | tsuperRoles role => exact lawful_tsuperRoles
  | mappings role => exact lawful_mappings
  | callins role => exact lawful_callins
  | precedence team => exact lawful_precedence
  | resolveAllComponents b => exact lawful_resolveAllComponents
  | reaches b target => exact lawful_reaches
  | findMemberType b simple => exact lawful_findMemberType
  | findMethods b name => exact lawful_findMethods
  | findField b name => exact lawful_findField
  | typeSupertypes t => exact lawful_typeSupertypes t
  | typeFields t => exact lawful_typeFields
  | typeMethods t => exact lawful_typeMethods
  | typeMemberTypes t => exact lawful_typeMemberTypes
  | substitutionFor t => exact lawful_substitutionFor t
  | substitute s t => exact lawful_substitute
  | erasure t => exact lawful_erasure
  | capture t site => exact lawful_capture
  | baseClassOf t => exact lawful_baseClassOf
  | isCompatible source target => exact lawful_isCompatible
  | canLift source target => exact lawful_canLift
  | canLower source target => exact lawful_canLower
  | enhancingArgTypes => exact lawful_enhancingArgTypes
  | enterSourceView m =>
    refine lawful_changeView fun x y changed => ?_
    rw [Method.enterSourceView] at changed
    split at changed <;> cases changed
    rfl
  | exitSourceView m =>
    refine lawful_changeView fun x y changed => ?_
    rw [Method.exitSourceView] at changed
    split at changed <;> cases changed
    rfl

end Operation

/-- The environments of a session. An operation that is aborted leaves one as well. -/
inductive Env.Reachable (provider : Provider) (options : Options) : Env → Prop
  | new {e : Env} : Env.new provider options = .ok e → Reachable provider options e
  | step {e : Env} {α : Type} (op : Operation α) : Reachable provider options e →
    Reachable provider options (op.perform.run e).2

theorem Env.eq_of_new {provider : Provider} {options : Options} {e : Env}
    (made : Env.new provider options = .ok e) :
    ∃ config, e = { options, provider, diagnostics := { config } } := by
  unfold Env.new at made
  split at made
  · cases made
    exact ⟨_, rfl⟩
  · cases made

theorem Env.Reachable.evolves {provider : Provider} {options : Options} {e : Env}
    (h : Reachable provider options e) :
    ∃ config, Evolves { options, provider, diagnostics := { config } } e := by
  induction h with
  | new made =>
    obtain ⟨config, rfl⟩ := eq_of_new made
    exact ⟨config, .refl _⟩
  | step op _ ih =>
    obtain ⟨config, evolves⟩ := ih
    exact ⟨config, evolves.trans (op.lawful_perform.run _).runs.evolves⟩

theorem Env.Reachable.preserves {provider : Provider} {options : Options} {e : Env} {I : Env → Prop}
    (h : Reachable provider options e)
    (new : ∀ config, I { options, provider, diagnostics := { config } })
    (proceeds : ∀ {e r e'}, Proceeds 8 e r e' → I e → I e') : I e := by
  induction h with
  | new made =>
    obtain ⟨config, rfl⟩ := eq_of_new made
    exact new config
  | step op _ ih => exact proceeds (op.lawful_perform.run _) ih

theorem Env.Reachable.keeps {provider : Provider} {options : Options} {e : Env} {I : Env → Prop}
    (h : Reachable provider options e)
    (new : ∀ config, I { options, provider, diagnostics := { config } })
    (runs : ∀ {e r e'}, Runs 8 e r e' → I e → I e') : I e :=
  h.preserves new fun run => runs run.runs

theorem Env.ranged_new (provider : Provider) (options : Options) (config : SeverityConfig) :
    ({ options, provider, diagnostics := { config } } : Env).Ranged := by
  have empty (p : Part) : ({ options, provider, diagnostics := { config } } : Env).slot p = .unresolved := by
    cases p <;> rfl
  refine ⟨nofun, nofun, fun b model given => ?_, fun p v resolved => ?_, fun role begun => ?_⟩
  · cases given
  · rw [empty] at resolved
    cases resolved
  · exact (begun (empty _)).elim

theorem Env.Reachable.ranged {provider : Provider} {options : Options} {e : Env}
    (h : Reachable provider options e) : e.Ranged :=
  h.keeps (ranged_new provider options) Runs.ranged

end TeamRoles
