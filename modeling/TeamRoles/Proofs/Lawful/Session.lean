import TeamRoles.Proofs.Hierarchy.Supertypes
import TeamRoles.Proofs.Lawful.Fields
import TeamRoles.Proofs.Lawful.Mapping
import TeamRoles.Proofs.Lawful.Surrogates
import TeamRoles.Session

/-!
A session is lawful: so are the answers of its oracle at every depth, and with them all that asks it.
-/

namespace TeamRoles.Resolve

variable {ℓ : Nat}

theorem answer_triple {α : Type} (q : Query α) :
    Triple q.level (fun _ => True) (answer q) q.Holds := by
  cases q with
  | findType name => exact findType_triple
  | supertypes b => exact supertypes_triple
  | typeVariables b => exact typeVariables_triple
  | fields b => exact fields_triple
  | methods b => exact methods_triple
  | baseClass b => exact baseClass_triple
  | fieldType f => exact fieldType_triple
  | isSubtype sub sup => exact Lawful.triple lawful_isSubtype
  | contains arg other => exact Lawful.triple lawful_contains
  | isEquivalent a b => exact Lawful.triple lawful_isEquivalent

theorem lawful_oracle (depth : Nat) : (oracle depth).Lawful := by
  induction depth with
  | zero => exact ⟨fun _ _ => .stop rfl, fun _ _ _ => nofun⟩
  | succ depth ih =>
    constructor
    · intro _ q e
      exact (answer_triple q (oracle depth) ih e trivial).1
    · intro _ q e
      exact (answer_triple q (oracle depth) ih e trivial).2

theorem Lawful.run {α : Type} {x : Resolve α} (h : Lawful ℓ x) (e : Env) :
    Proceeds ℓ e (aborted (x.run e).1) (x.run e).2 :=
  h (oracle maxDepth) (lawful_oracle maxDepth) e

theorem Triple.at_depth {α : Type} {x : Resolve α} {P : Env → Prop} {Q : α → Env → Prop} {e e' : Env}
    {a : α} {depth : Nat} (h : Triple ℓ P x Q) (he : P e) (answered : x (oracle depth) e = (.ok a, e')) :
    Proceeds ℓ e none e' ∧ Q a e' := by
  obtain ⟨runs, holds⟩ := h (oracle depth) (lawful_oracle depth) e he
  rw [answered] at runs holds
  exact ⟨runs, holds a rfl⟩

theorem Triple.run {α : Type} {x : Resolve α} {P : Env → Prop} {Q : α → Env → Prop} {e e' : Env}
    {a : α} (h : Triple ℓ P x Q) (he : P e) (answered : x.run e = (.ok a, e')) :
    Proceeds ℓ e none e' ∧ Q a e' :=
  h.at_depth he answered

theorem lawful_inheritedMethods {b : BindingId} : Lawful (ℓ + 6) (inheritedMethods b) := by
  refine (Lawful.ask _ (by simp)).bind fun _ => lawful_walk (fun t => ?_) _ _ fun _ _ => ?_
  · exact (lawful_typeSupertypes t).bind fun _ => .pure
  · exact .bind lawful_typeMethods fun _ => .pure

theorem lawful_checkOverride {b : BindingId} {inherited : List MethodId} {m : MethodId} :
    Lawful (ℓ + 2) (checkOverride b inherited m) := by
  refine .bind .get fun e => .ite ?_ .pure
  refine .optionForM fun other => ?_
  extract_lets shown ret superRet rank
  have ranked : ∀ r, Lawful (ℓ + 2) (rank r) := fun _ => .ite lawful_reportFor .pure
  refine .ite (ranked ()) ((Lawful.ask _ (by simp)).bind fun _ => ?_)
  exact .ite (ranked ()) (.bind lawful_reportFor ranked)

theorem lawful_checkOverrides {b : BindingId} : Lawful (ℓ + 6) (checkOverrides b) := by
  refine .bind lawful_inheritedMethods fun inherited => .ite .pure ?_
  exact (Lawful.ask _ (by simp)).bind fun _ => .forM fun _ => lawful_checkOverride

theorem lawful_resolveAllComponents {b : BindingId} : Lawful (ℓ + 5) (resolveAllComponents b) :=
  (Lawful.ask _ (by simp)).discard.bind fun _ => .bind (.discard lawful_memberTypes) fun _ =>
    (Lawful.ask _ (by simp)).discard.bind fun _ => (Lawful.ask _ (by simp)).discard.bind fun _ =>
      (Lawful.ask _ (by simp)).discard.bind fun _ => (Lawful.ask _ (by simp)).discard

theorem lawful_resolveFrom {fuel next : Nat} : Lawful (ℓ + 5) (resolveFrom fuel next) := by
  induction fuel generalizing next with
  | zero => exact .bind .get fun _ => .ite .pure (.throw rfl)
  | succ fuel ih => exact .bind .get fun _ => .ite .pure (.bind lawful_resolveAllComponents fun _ => ih)

theorem lawful_checkRole {b : BindingId} : Lawful (ℓ + 6) (checkRole b) := by
  refine .bind .get fun _ => .ite (.bind (.discard lawful_mappings) fun _ => ?_) .pure
  exact (Lawful.ask _ (by simp)).bind fun _ => .forM fun _ => lawful_checkBaseCalls

theorem lawful_checkType {b : BindingId} : Lawful (ℓ + 7) (checkType b) := by
  refine .bind .get fun _ => ?_
  exact .ite (.bind (.discard lawful_precedence) fun _ => lawful_checkOverrides) lawful_checkOverrides

theorem lawful_resolve : Lawful (ℓ + 7) resolve := by
  refine .bind lawful_checkPackageCollisions fun _ => .bind .get fun _ => ?_
  refine .bind (.forM fun _ => .discard lawful_imports) fun _ => Lawful.depth.bind fun _ => ?_
  refine .bind lawful_resolveFrom fun _ => .bind lawful_checkDeferredBounds fun _ => ?_
  refine .bind (.forM fun _ => lawful_verifyBaseImports) fun _ => .bind .get fun _ => ?_
  exact .bind (.forM fun _ => lawful_checkRole) fun _ => .forM fun _ => lawful_checkType

end TeamRoles.Resolve
