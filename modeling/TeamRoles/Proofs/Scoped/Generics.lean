import TeamRoles.Proofs.Hierarchy.Supertypes
import TeamRoles.Proofs.Lawful.Generics
import TeamRoles.Proofs.Scoped.Members

/-!
Instantiations, comparisons of types and supertypes keep everything in scope. The members of instantiations are
not part of a type, so nothing has to be known about them.
-/

namespace TeamRoles.Resolve

variable {e : Env}

theorem calm_ofErased {t : ErasedType} : Calm (ofErased t) := by
  induction t with
  | primitive b => exact .pure
  | null => exact .pure
  | cls b => exact .pure
  | root => exact calm_objectType
  | array component ih => exact .bind ih fun _ => .pure

theorem calm_erasure {t : Ty} : Calm (erasure t) := .bind .get fun _ => calm_ofErased

theorem calm_substitute {s : Substitution} {t : Ty} : Calm (substitute s t) :=
  .bind .get fun _ => .ite (.bind calm_objectType fun _ => .pure) (.bind .pure fun _ => .pure)

mutual

theorem calm_substitutionFor (t : Ty) : Calm (substitutionFor t) := by
  match t with
  | .parameterized generic args enclosing =>
    rw [substitutionFor]
    exact .bind (.ask _) fun _ => .bind (calm_substitutionForOption enclosing) fun _ => .pure
  | .raw generic enclosing =>
    rw [substitutionFor]
    exact .bind (.ask _) fun _ => .bind (calm_substitutionForOption enclosing) fun _ => .pure
  | .anchored role path =>
    rw [substitutionFor]
    exact calm_substitutionFor role
  | .primitive _ | .null | .declared _ | .variable _ | .wildcard _ _ | .captured _ | .array _ =>
    simp only [substitutionFor]
    exact .pure

theorem calm_substitutionForOption (t : Option Ty) : Calm (substitutionForOption t) := by
  match t with
  | none =>
    rw [substitutionForOption]
    exact .pure
  | some t =>
    rw [substitutionForOption]
    exact calm_substitutionFor t

end

theorem calm_instanceMembers {t : Ty} : Calm (instanceMembers t) := .bind .get fun _ => .pure

theorem calm_updateInstance {t : Ty} {f : InstanceMembers → InstanceMembers} : Calm (updateInstance t f) :=
  .quiet fun _ => rfl

theorem calm_instanceSupertypes {t : Ty} {generic : BindingId} : Calm (instanceSupertypes t generic) := by
  refine .bind calm_instanceMembers fun members => ?_
  split
  · exact .pure
  · refine .bind (.ask _) fun declared => .bind (calm_substitutionFor t) fun s => ?_
    extract_lets finish
    have finished (superclass : Option Ty) : Calm (finish superclass) :=
      .bind (.mapM fun _ => calm_substitute) fun _ => .bind calm_updateInstance fun _ => .pure
    split
    · exact .bind (.map calm_substitute) finished
    · exact .bind .pure finished

theorem calm_typeSupertypes (t : Ty) : Calm (typeSupertypes t) := by
  fun_induction typeSupertypes t with
  | case1 b => exact .ask _
  | case2 generic args enclosing => exact calm_instanceSupertypes
  | case3 generic enclosing => exact calm_instanceSupertypes
  | case4 role path ih => exact ih
  | case5 c => exact .bind .get fun _ => .pure
  | case6 v =>
    refine .bind .get fun e => ?_
    split
    · exact .pure
    · exact .bind calm_objectType fun _ => .pure
  | case7 => exact .pure

theorem calm_instanceField {s : Substitution} {generic : FieldId} : Calm (instanceField s generic) :=
  .bind (.ask _) fun _ => .bind calm_substitute fun _ => .bind .get fun _ => calm_addField

theorem calm_typeFields {t : Ty} : Calm (typeFields t) := by
  unfold typeFields
  split
  · split
    · exact .ask _
    · exact .pure
  · refine .bind (calm_substitutionFor t) fun s => .bind calm_instanceMembers fun members => ?_
    split
    · exact .pure
    · exact .bind (.ask _) fun _ => .bind (.mapM fun _ => calm_instanceField) fun _ =>
        .bind calm_updateInstance fun _ => .pure

theorem enhancingArgType_from {arg : EnhancingArg} : From e (enhancingArgType arg) fun t d => d.Rooted t := by
  cases arg with
  | baseArg => exact wellKnownType_from
  | teams => exact wellKnownType_from.bind fun _ _ _ rooted => .pure fun _ hc => hc.rooted rooted
  | index => exact .pure fun _ _ => trivial
  | boundMethodId => exact .pure fun _ _ => trivial
  | callinIds => exact .pure fun _ _ => trivial
  | args => exact objectType_from.bind fun _ _ _ rooted => .pure fun _ hc => hc.rooted rooted

theorem enhancingArgTypes_from : From e enhancingArgTypes fun ts d => ∀ t ∈ ts, d.Rooted t :=
  .get_bind fun _ _ => .mapM (fun _ _ => enhancingArgType_from) lasting_rooted

theorem lasting_types (ts : List Ty) : Lasting fun e => ∀ t ∈ ts, e.Rooted t :=
  fun _ _ le rooted t ht => le.rooted (rooted t ht)

theorem enhance_from {declared : MethodType} (params : ∀ t ∈ declared.params, e.Rooted t) :
    From e (enhance declared) fun enhanced d => ∀ type ∈ enhanced, ∀ t ∈ type.params, d.Rooted t := by
  refine enhancingArgTypes_from.bind fun extra d le rooted => .ite (fun _ => .pure fun _ _ => nofun) fun _ => ?_
  have made (ret : Ty) (c : Env) (hc : d.Develops c) :
      From c (pure (some ⟨extra ++ declared.params, ret⟩) : Resolve (Option MethodType))
        fun enhanced d => ∀ type ∈ enhanced, ∀ t ∈ type.params, d.Rooted t := by
    refine .pure fun _ last type same => ?_
    cases same
    exact List.forall_mem_append.2
      ⟨lasting_types extra (hc.trans last) rooted, lasting_types _ (le.trans (hc.trans last)) params⟩
  exact .ite (fun _ => made _ d (.refl le.closed)) fun _ => .after calm_objectType made

theorem newMethod_from {m : Method} (params : ∀ t ∈ m.declared.params, e.Rooted t) :
    From e (newMethod m) fun i d => d.HasMethod i ∧ (d.method i).name = m.name ∧ (d.method i).origin = m.origin := by
  have add (enhanced : Option MethodType) (d : Env) (le : e.Develops d)
      (fits : ∀ type ∈ enhanced, ∀ t ∈ type.params, d.Rooted t) :
      From d (addMethod { m with enhanced }) fun i d =>
        d.HasMethod i ∧ (d.method i).name = m.name ∧ (d.method i).origin = m.origin := by
    have params := lasting_types _ le params
    refine addMethod_from params ?_
    cases enhanced with
    | none => exact params
    | some type => exact fits type rfl
  refine .ite (fun _ => (enhance_from params).bind add) fun _ => ?_
  exact .bind (Q := fun enhanced d => ∀ type ∈ enhanced, ∀ t ∈ type.params, d.Rooted t)
    (.pure fun _ _ => nofun) add

theorem calm_enhance {declared : MethodType} : Calm (enhance declared) := by
  refine .bind (From.calm fun _ => enhancingArgTypes_from) fun _ => .ite .pure ?_
  exact .ite (.bind .pure fun _ => .pure) (.bind calm_objectType fun _ => .pure)

theorem calm_newMethod {m : Method} : Calm (newMethod m) :=
  .ite (.bind calm_enhance fun _ => calm_addMethod) (.bind .pure fun _ => calm_addMethod)

theorem calm_instanceMethod {s : Substitution} {generic : MethodId} : Calm (instanceMethod s generic) := by
  refine .bind .get fun e => .bind (.mapM fun _ => calm_substitute) fun _ => ?_
  exact .bind calm_substitute fun _ => .bind (.mapM fun _ => calm_substitute) fun _ => calm_newMethod

theorem calm_typeMethods {t : Ty} : Calm (typeMethods t) := by
  unfold typeMethods
  split
  · split
    · exact .ask _
    · exact .pure
  · refine .bind (calm_substitutionFor t) fun s => .bind calm_instanceMembers fun members => ?_
    split
    · exact .pure
    · exact .bind (.ask _) fun _ => .bind (.mapM fun _ => calm_instanceMethod) fun _ =>
        .bind calm_updateInstance fun _ => .pure

theorem calm_memberTypesWithin {b : BindingId} {enclosing : Option Ty} : Calm (memberTypesWithin b enclosing) :=
  .bind calm_memberTypes fun _ => .bind .get fun _ => .pure

theorem calm_typeMemberTypes {t : Ty} : Calm (typeMemberTypes t) := by
  unfold typeMemberTypes
  split
  · refine .bind calm_instanceMembers fun members => ?_
    split
    · exact .pure
    · exact .bind calm_memberTypesWithin fun _ => .bind calm_updateInstance fun _ => .pure
  · split
    · exact calm_memberTypesWithin
    · exact .pure

theorem calm_baseClassOf {t : Ty} : Calm (baseClassOf t) := by
  unfold baseClassOf
  split
  · exact .pure
  · refine .bind (.ask _) fun base => ?_
    cases base with
    | none => exact .pure
    | some base => exact .bind (calm_substitutionFor t) fun _ => .bind calm_substitute fun _ => .pure

theorem calm_containsAll {pairs : List (Ty × Ty)} : Calm (containsAll pairs) := by
  induction pairs with
  | nil => exact .pure
  | cons pair pairs ih => exact .bind (.ask _) fun _ => .ite ih .pure

theorem calm_containsBothWays {pairs : List (Ty × Ty)} : Calm (containsBothWays pairs) := by
  induction pairs with
  | nil => exact .pure
  | cons pair pairs ih => exact .bind (.ask _) fun _ => .ite (.bind (.ask _) fun _ => .ite ih .pure) .pure

theorem calm_contains {arg other : Ty} : Calm (contains arg other) := by
  refine .ite .pure (.bind calm_objectType fun object => ?_)
  split
  · exact .pure
  · exact .ask _
  · exact .pure
  · exact .ask _
  · exact .ask _
  · exact .pure
  · exact .ask _
  · exact .pure
  · exact .ask _

theorem calm_isEquivalent {a b : Ty} : Calm (isEquivalent a b) := by
  refine .ite .pure ?_
  split
  · refine .ite .pure (.bind calm_containsBothWays fun _ => .ite ?_ .pure)
    split
    · exact .pure
    · exact .ask _
    · exact .pure
  · exact .pure
  · exact .ask _
  · exact .ite (.ask _) .pure
  · exact .pure

theorem calm_fitsTarget {found sup : Ty} : Calm (fitsTarget found sup) := by
  unfold fitsTarget
  split
  · exact .pure
  · exact .pure
  · exact .ite calm_containsAll .pure
  · exact .pure

theorem calm_reachesType {sub sup : Ty} : Calm (reachesType sub sup) := by
  unfold reachesType
  split
  · exact .pure
  · refine calm_walk (fun t => .bind (calm_typeSupertypes t) fun _ => .pure) _ _ fun _ _ => ?_
    exact .ite .pure (.bind calm_fitsTarget fun _ => .ite .pure .pure)

theorem calm_anySubtype {sup : Ty} {ts : List Ty} : Calm (anySubtype sup ts) := by
  induction ts with
  | nil => exact .pure
  | cons t ts ih => exact .bind (.ask _) fun _ => .ite .pure ih

theorem calm_isSubtype {sub sup : Ty} : Calm (isSubtype sub sup) := by
  refine .bind .get fun e => .ite .pure (.bind calm_objectType fun object => ?_)
  split
  · exact .pure
  · exact .pure
  · refine .ite .pure ?_
    split
    · exact .pure
    · exact .ite (.ask _) .pure
    · exact .bind .get fun _ => calm_anySubtype
    · exact .bind .get fun _ => .ask _
    · refine .bind .get fun _ => ?_
      split
      · exact .ask _
      · exact .pure
    · exact .ite (.ask _) .pure
    · exact .pure
    · exact .ask _
    · exact calm_reachesType
    · exact calm_reachesType
    · exact calm_reachesType
    · exact .pure

theorem calm_isCompatible {source target : Ty} : Calm (isCompatible source target) := by
  refine .bind (.ask _) fun _ => .ite .pure ?_
  split
  · exact .pure
  · exact .ite (.bind calm_erasure fun _ => .bind calm_erasure fun _ => .ask _) .pure

theorem calm_capture {t : Ty} {site : Span} : Calm (capture t site) := by
  unfold capture
  split
  · refine .ite ?_ .pure
    refine .bind (.ask _) fun vars => .bind calm_objectType fun object => ?_
    refine .bind (.mapM fun arg => .bind .get fun _ => ?_) fun _ => .pure
    dsimp only
    split
    · exact .bind calm_addCapture fun _ => .pure
    · exact .pure
  · exact .pure

theorem calm_withinBounds {s : Substitution} {arg : Ty} {bounds : List Ty} :
    Calm (checkBound.withinBounds s arg bounds) := by
  induction bounds with
  | nil => exact .pure
  | cons bound bounds ih => exact .bind calm_substitute fun _ => .bind (.ask _) fun _ => .ite ih .pure

theorem calm_checkBound {check : BoundCheck} : Calm (checkBound check) := by
  unfold checkBound
  split
  · refine .bind (.ask _) fun vars => .bind (calm_substitutionFor _) fun s => ?_
    refine .forM fun pair => .bind .get fun _ => .ite .pure (.bind .get fun _ => ?_)
    exact .bind calm_withinBounds fun _ => .ite .pure (.bind .get fun _ => calm_reportInUnit)
  · exact .pure

theorem calm_checkDeferredBounds : Calm checkDeferredBounds := by
  refine .bind .get fun _ => .bind (.quiet ?_) fun _ => .forM fun _ => calm_checkBound
  exact fun _ => rfl

theorem calm_inheritedBaseClass {b : BindingId} : Calm (inheritedBaseClass b) := by
  refine .bind .get fun e => .ite ?_ .pure
  refine .bind calm_superclassOf fun _ => .bind .get fun _ => .bind (.findSomeM? fun _ => .ask _) fun found => ?_
  cases found with
  | some base => exact .pure
  | none => exact .bind calm_tsuperRoles fun _ => .findSomeM? fun _ => .ask _

theorem calm_checkDeclaredBase {b : BindingId} {base : Ty} {unit : UnitId} :
    Calm (checkDeclaredBase b base unit) := by
  refine .bind .get fun e => ?_
  extract_lets role report done
  have reported {p : ProblemId} {arguments : List String} : Calm (report p arguments) := calm_reportInUnit
  refine .ite (.ite .pure ?_) (.bind reported fun _ => .pure)
  split
  · exact .pure
  · extract_lets name refines check
    have refined (r : PUnit) : Calm (refines r) := by
      refine .bind calm_inheritedBaseClass fun inherited => ?_
      cases inherited with
      | none => exact .pure
      | some inherited =>
        refine .bind .get fun _ => .ite .pure (.bind (.ask _) fun _ => .ite .pure ?_)
        exact .bind .get fun _ => .bind reported fun _ => .pure
    have checked (isCycle : Bool) : Calm (check isCycle) := by
      refine .ite (.bind reported fun _ => .pure) (.bind .get fun _ => ?_)
      refine .ite (.bind reported fun _ => .pure) ?_
      exact .ite (refined ()) (.bind reported refined)
    exact .ite (.bind .pure checked) (.bind calm_reaches checked)

theorem calm_setBaseClass {b : BindingId} {slot : Slot (Option Ty)} :
    Calm (updateBinding b ({ · with baseClass := slot })) :=
  calm_updateBinding fun _ => ⟨fun _ => rfl, fun _ _ _ fits => { fits with }, fun _ _ => id⟩

theorem Site.fits_header {b : BindingId} {unit : UnitId} (closed : e.Scoped) : (Site.header e b unit).Fits e :=
  ⟨(closed.bindings b).enclosing, nofun⟩

theorem calm_baseClass {b : BindingId} : Calm (baseClass b) := by
  refine .bind calm_known fun x => ?_
  extract_lets finish
  have finished (base : Option Ty) : Calm (finish base) := .bind calm_setBaseClass fun _ => .pure
  split
  · exact .pure
  · exact .pure
  · refine .bind calm_setBaseClass fun _ => ?_
    split
    · split
      · refine fun e => .get_bind fun d le => ?_
        refine (typeOfSpec_from ?_ _).bind fun base c _ _ => (Calm.bind calm_checkDeclaredBase finished) c
        exact ⟨(le.closed.bindings b).enclosing, nofun⟩
      · exact .bind calm_inheritedBaseClass finished
    · split
      · refine .ite ?_ (.bind .pure finished)
        exact .bind calm_findTypeOrProblem fun _ => .bind .get fun _ => .bind .pure finished
      · exact .bind .pure finished
    · exact .bind .pure finished

theorem calm_roleBase {t : Ty} : Calm (roleBase t) := by
  refine .bind .get fun e => ?_
  split
  · exact .ite calm_baseClassOf .pure
  · exact .pure

theorem calm_canLift {source target : Ty} : Calm (canLift source target) := by
  fun_induction canLift source target with
  | case1 source target ih =>
    refine .bind calm_isCompatible fun _ => .ite .pure ?_
    split
    · exact ih
    · refine .bind calm_roleBase fun base => ?_
      cases base with
      | some base => exact calm_isCompatible
      | none => exact .pure

theorem calm_canLower {source target : Ty} : Calm (canLower source target) := by
  fun_induction canLower source target with
  | case1 source target ih =>
    refine .bind calm_isCompatible fun _ => .ite .pure ?_
    split
    · exact ih
    · refine .bind calm_roleBase fun base => ?_
      cases base with
      | some base => exact calm_isCompatible
      | none => exact .pure

section Supertypes

variable {b target : BindingId} {edge : SupertypeEdge} {candidate : Ty}

theorem calm_defaultSuperclass : Calm (defaultSuperclass b) := by
  refine .bind .get fun e => .ite .pure (.ite ?_ ?_)
  · exact .bind calm_wellKnownType fun _ => .pure
  · exact .bind calm_objectType fun _ => .pure

theorem calm_declaredSupertypes {decl : TypeDecl} {unit : UnitId} : Calm (declaredSupertypes b decl unit) := by
  refine fun e => .get_bind fun d le => ?_
  extract_lets site written finish
  have fits : site.Fits d := Site.fits_header le.closed
  have finished (superclass : Option Ty) (c : Env) (hc : d.Develops c) :
      From c (finish superclass) fun _ _ => True :=
    (typesOfSpecs_from (fits.mono hc)).bind fun _ _ _ _ => .pure fun _ _ => trivial
  clear_value written
  cases written with
  | some spec =>
    have typed : From d (some <$> typeOfSpec site spec) fun _ _ => True :=
      (typeOfSpec_from fits spec).bind fun _ _ _ _ => .pure fun _ _ => trivial
    exact typed.bind fun superclass c hc _ => finished superclass c hc
  | none => exact .after calm_defaultSuperclass finished

theorem calm_bareTypeNamed {name : String} : Calm (bareTypeNamed name) :=
  .bind calm_findTypeOrProblem fun _ => .bind .get fun _ => .pure

theorem calm_namedSupertypes {d : Descriptor} : Calm (namedSupertypes d) := by
  unfold namedSupertypes
  extract_lets finish
  have finished (superclass : Option Ty) : Calm (finish superclass) :=
    .bind (.mapM fun _ => calm_bareTypeNamed) fun _ => .pure
  split
  · exact .bind (.map calm_bareTypeNamed) finished
  · exact .bind .pure finished

theorem calm_typeOfClass {c : Signature.ClassType} : Calm (typeOfClass { owner := b } c) :=
  From.calm fun _ => typeOfClass_from SignatureScope.fits_of_owner

theorem calm_compiledSupertypes {d : Descriptor} : Calm (compiledSupertypes b d) := by
  unfold compiledSupertypes
  split
  · exact calm_namedSupertypes
  · exact .bind calm_reportFor fun _ => calm_namedSupertypes
  · extract_lets scope finish
    have finished (superclass : Option Ty) : Calm (finish superclass) :=
      .bind (.mapM fun _ => calm_typeOfClass) fun _ => .pure
    exact .ite (.bind (.map calm_typeOfClass) finished) (.bind .pure finished)

theorem calm_replacementEdge : Calm (replacementEdge b edge) :=
  .bind .get fun _ => .ite .pure (.bind calm_objectType fun _ => .pure)

theorem calm_markProblems : Calm (markProblems b) :=
  calm_updateBinding fun _ => ⟨fun _ => rfl, fun _ _ _ fits => { fits with }, fun _ _ => id⟩

theorem calm_checkDeclaredEdge : Calm (checkDeclaredEdge b candidate target edge) := by
  refine .bind .get fun e => ?_
  extract_lets x above shown keep
  have kept (r : PUnit) : Calm (keep r) := .pure
  cases edge with
  | superclass =>
    exact .ite (.bind calm_reportFor fun _ => calm_replacementEdge) (.ite (.bind calm_reportFor kept) (kept ()))
  | interface => exact .ite .pure (.bind calm_reportFor fun _ => .pure)

theorem calm_checkEdge : Calm (checkEdge b edge candidate) := by
  refine .bind .get fun e => ?_
  extract_lets x replace
  have replaced (r : PUnit) : Calm (replace r) := calm_replacementEdge
  split
  · exact .ite (.bind calm_reportFor replaced) (replaced ())
  · refine .ite (.bind calm_markProblems fun _ => .pure) ?_
    extract_lets declare settle
    have declared (r : PUnit) : Calm (declare r) := .ite calm_checkDeclaredEdge .pure
    have settled (isCycle : Bool) : Calm (settle isCycle) := by
      refine .bind .get fun _ => .ite (.bind calm_reportFor fun _ => calm_replacementEdge) ?_
      exact .ite (.bind calm_markProblems declared) (declared ())
    exact .ite (.bind .pure settled) (.bind calm_reaches settled)

theorem calm_keepInterface {kept : List Ty} : Calm (keepInterface b kept candidate) := by
  refine .bind calm_checkEdge fun added => ?_
  cases added with
  | none => exact .pure
  | some t => exact .pure

theorem calm_checkedSupertypes : Calm (checkedSupertypes b) := by
  refine .bind .get fun e => ?_
  extract_lets check
  have checked (written : Supertypes) : Calm (check written) := by
    dsimp -zeta only [check]
    extract_lets finish
    have finished (superclass : Option Ty) : Calm (finish superclass) :=
      .bind (.foldlM (fun _ _ => calm_keepInterface) _) fun _ => .pure
    split
    · exact .bind calm_checkEdge finished
    · exact .bind .pure finished
  split
  · exact .bind calm_declaredSupertypes checked
  · exact .bind calm_compiledSupertypes checked
  · exact .bind .pure checked

theorem calm_setSupertypes {slot : Slot Supertypes} : Calm (updateBinding b ({ · with supertypes := slot })) :=
  calm_updateBinding fun _ => ⟨fun _ => rfl, fun _ _ _ fits => { fits with }, fun _ _ => id⟩

theorem calm_supertypes : Calm (supertypes b) := by
  refine .bind calm_known fun x => ?_
  split
  · exact .pure
  · exact .pure
  · refine .bind calm_setSupertypes fun _ => .bind calm_checkedSupertypes fun s => ?_
    refine .bind calm_setSupertypes fun _ => .bind .get fun _ => ?_
    exact .ite (.bind calm_reportFor fun _ => .pure) .pure

end Supertypes

end TeamRoles.Resolve
