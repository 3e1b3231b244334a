import TeamRoles.Proofs.Env.Parts
import TeamRoles.Session

/-!
One environment under different weights of problems. How problems are weighed is seen by reports only:
every other view of an environment is the same under all of them.
-/

namespace TeamRoles

/-- How problems are weighed: the options that say so, and the configuration that is made of them. -/
structure Reporting where
  severities : SeverityTable
  strict : Bool
  config : SeverityConfig

structure Report where
  id : ProblemId
  file : Option String
  span : Span
  arguments : List String

/-- The problem of a report, with the weight that a configuration gives it, unless that ignores it. -/
def Report.under (c : SeverityConfig) (r : Report) : Option Problem :=
  (c.effective? r.id).map fun severity =>
    { id := r.id, severity, file := r.file, span := r.span, arguments := r.arguments }

namespace Problem

def report (p : Problem) : Report :=
  { id := p.id, file := p.file, span := p.span, arguments := p.arguments }

def under (c : SeverityConfig) (p : Problem) : Option Problem := p.report.under c

end Problem

def Diagnostics.under (d : Diagnostics) (c : SeverityConfig) : Diagnostics :=
  { d with config := c, problems := d.problems.filterMap (Problem.under c) }

namespace Env

def under (e : Env) (r : Reporting) : Env :=
  { e with
    options := { e.options with severities := r.severities, strict := r.strict }
    diagnostics := e.diagnostics.under r.config }

variable {e : Env} {r : Reporting}

section Views

@[simp] theorem binding_under {b : BindingId} : (e.under r).binding b = e.binding b := rfl

@[simp] theorem method_under {m : MethodId} : (e.under r).method m = e.method m := rfl

@[simp] theorem field_under {f : FieldId} : (e.under r).field f = e.field f := rfl

@[simp] theorem typeVar_under {v : TypeVarId} : (e.under r).typeVar v = e.typeVar v := rfl

@[simp] theorem capture_under {c : CaptureId} : (e.under r).capture c = e.capture c := rfl

@[simp] theorem unit_under {u : UnitId} : (e.under r).unit u = e.unit u := rfl

@[simp] theorem bindings_under : (e.under r).bindings = e.bindings := rfl

@[simp] theorem units_under : (e.under r).units = e.units := rfl

@[simp] theorem typeVars_under : (e.under r).typeVars = e.typeVars := rfl

@[simp] theorem captures_under : (e.under r).captures = e.captures := rfl

@[simp] theorem isObject_under {b : BindingId} : (e.under r).isObject b = e.isObject b := rfl

@[simp] theorem instantiate_under {b : BindingId} {args : List Ty} {enclosing : Option Ty} :
    (e.under r).instantiate b args enclosing = e.instantiate b args enclosing := rfl

@[simp] theorem methodName_under {m : MethodId} : (e.under r).methodName m = e.methodName m := rfl

@[simp] theorem isProblemType_under {t : Ty} : (e.under r).isProblemType t = e.isProblemType t := rfl

end Views

section Enclosing

theorem outerFrom_under {fuel : Nat} {seen : List BindingId} {next : Option BindingId} :
    (e.under r).outerFrom fuel seen next = e.outerFrom fuel seen next := by
  fun_induction outerFrom e fuel seen next with
  | case1 seen fuel b known => rw [outerFrom, if_pos known]
  | case2 seen fuel b new ih => rw [outerFrom, if_neg new, binding_under, ih]
  | case3 fuel seen next h => cases fuel <;> cases next <;> grind [outerFrom]

@[simp] theorem enclosingChain_under {b : BindingId} :
    (e.under r).enclosingChain b = e.enclosingChain b := by
  rw [enclosingChain, outerFrom_under]
  rfl

@[simp] theorem outermost_under {b : BindingId} : (e.under r).outermost b = e.outermost b := by
  rw [outermost, enclosingChain_under]
  rfl

@[simp] theorem enclosingTeam?_under {b : BindingId} :
    (e.under r).enclosingTeam? b = e.enclosingTeam? b := by
  rw [enclosingTeam?, enclosingChain_under]
  rfl

@[simp] theorem isVisibleFrom_under {target : BindingId} {unit : UnitId}
    {inside : Option BindingId} :
    (e.under r).isVisibleFrom target unit inside = e.isVisibleFrom target unit inside := by
  have outermost_eq : (e.under r).outermost = e.outermost := funext fun _ => outermost_under
  simp only [isVisibleFrom, enclosingChain_under, outermost_eq, unit_under, binding_under]

@[simp] theorem isMemberVisible_under {modifiers : Modifiers} {declaring : BindingId}
    {unit : UnitId} : (e.under r).isMemberVisible modifiers declaring unit =
      e.isMemberVisible modifiers declaring unit := by
  simp only [isMemberVisible, isVisibleFrom_under, outermost_under, unit_under, binding_under]

end Enclosing

section Names

mutual

theorem typeNameWith_under {captureName : CaptureId → String} (t : Ty) :
    (e.under r).typeNameWith captureName t = e.typeNameWith captureName t := by
  match t with
  | .primitive _ | .null | .declared _ | .raw _ _ | .variable _ | .captured _ =>
    simp only [typeNameWith, binding_under, typeVar_under]
  | .parameterized generic args _ =>
    simp only [typeNameWith, binding_under, typeNamesWith_under args]
  | .wildcard kind bound =>
    cases bound with
    | none => cases kind <;> simp only [typeNameWith]
    | some bound => cases kind <;> simp only [typeNameWith, typeNameWith_under bound]
  | .array component => simp only [typeNameWith, typeNameWith_under component]
  | .anchored role path => simp only [typeNameWith, typeNameWith_under role, field_under]

theorem typeNamesWith_under {captureName : CaptureId → String} (ts : List Ty) :
    (e.under r).typeNamesWith captureName ts = e.typeNamesWith captureName ts := by
  match ts with
  | [] => simp only [typeNamesWith]
  | t :: ts => simp only [typeNamesWith, typeNameWith_under t, typeNamesWith_under ts]

end

theorem captureName_under {fuel : Nat} : (e.under r).captureName fuel = e.captureName fuel := by
  induction fuel with
  | zero => rfl
  | succ fuel ih =>
    funext c
    simp only [captureName, capture_under, typeNameWith_under, ih]

@[simp] theorem typeName_under {t : Ty} : (e.under r).typeName t = e.typeName t := by
  rw [typeName, typeNameWith_under, captures_under, captureName_under]
  rfl

end Names

section Erasure

theorem eraseFrom_under {fuel : Nat} {seen : List TypeVarId} {t : Ty} :
    (e.under r).eraseFrom fuel seen t = e.eraseFrom fuel seen t := by
  induction fuel generalizing seen t with
  | zero => rfl
  | succ fuel ih => simp only [eraseFrom, typeVar_under, capture_under, ih]

@[simp] theorem erase_under {t : Ty} : (e.under r).erase t = e.erase t := by
  rw [erase, eraseFrom_under]
  rfl

theorem erasedKey_under {steps : Nat} {t : Ty} :
    (e.under r).erasedKey steps t = e.erasedKey steps t := by
  fun_induction erasedKey e steps t <;> simp_all [erasedKey]

@[simp] theorem sameErasure_under {a b : Ty} : (e.under r).sameErasure a b = e.sameErasure a b := by
  rw [sameErasure, erasedKey_under, erasedKey_under]
  rfl

@[simp] theorem sameErasures_under {as bs : List Ty} :
    (e.under r).sameErasures as bs = e.sameErasures as bs := by
  simp only [sameErasures, sameErasure_under]

@[simp] theorem sameParameters_under {a b : MethodId} :
    (e.under r).sameParameters a b = e.sameParameters a b :=
  sameErasures_under

end Erasure

end Env

namespace Substitution

variable {e : Env} {r : Reporting}

@[simp] theorem image_under {s : Substitution} {root : Ty} :
    s.image (e.under r) root = s.image e root := by
  funext v
  simp only [image, Env.erase_under]

@[simp] theorem needsRoot_under {s : Substitution} {t : Ty} :
    s.needsRoot (e.under r) t = s.needsRoot e t := by
  simp only [needsRoot, Env.erase_under]

end Substitution

namespace Resolve

variable {e : Env} {r : Reporting}

theorem typesWithin_under {unit : UnitId} {fuel : Nat} {types : List BindingId} :
    typesWithin (e.under r) unit fuel types = typesWithin e unit fuel types := by
  induction fuel generalizing types with
  | zero => rfl
  | succ fuel ih =>
    cases types with
    | nil => rfl
    | cons b types => simp only [typesWithin, Env.binding_under, ih]

@[simp] theorem declaredTypes_under {unit : UnitId} :
    declaredTypes (e.under r) unit = declaredTypes e unit := by
  rw [declaredTypes, typesWithin_under]
  rfl

end Resolve

end TeamRoles
