import TeamRoles.Proofs.Pairing.Members

/-!
Supertypes, base classes, instantiations and the comparison of types are the same in both environments
of a pair.
-/

namespace TeamRoles.Resolve

variable {p : Pairing}

theorem keeps_ofErased {t : ErasedType} : Keeps p (ofErased t) := by
  induction t with
  | primitive b => exact .pure
  | null => exact .pure
  | cls b => exact .pure
  | root => exact keeps_objectType
  | array component ih => exact ih.bind fun _ => .pure

theorem keeps_erasure {t : Ty} : Keeps p (erasure t) :=
  .get_bind (fun _ _ => by rw [Env.erase_under]) fun _ _ => keeps_ofErased

theorem keeps_substitute {s : Substitution} {t : Ty} : Keeps p (substitute s t) := by
  refine .get_bind (fun _ _ => by simp) fun e _ => ?_
  exact .ite (keeps_objectType.bind fun _ => .pure) (.bind .pure fun _ => .pure)

mutual

theorem keeps_substitutionFor (t : Ty) : Keeps p (substitutionFor t) := by
  match t with
  | .parameterized generic args enclosing =>
    rw [substitutionFor]
    exact Keeps.ask.bind fun _ => (keeps_substitutionForOption enclosing).bind fun _ => .pure
  | .raw generic enclosing =>
    rw [substitutionFor]
    exact Keeps.ask.bind fun _ => (keeps_substitutionForOption enclosing).bind fun _ => .pure
  | .anchored role path =>
    rw [substitutionFor]
    exact keeps_substitutionFor role
  | .primitive _ | .null | .declared _ | .variable _ | .wildcard _ _ | .captured _ | .array _ =>
    rw [substitutionFor]
    · exact .pure
    all_goals nofun

theorem keeps_substitutionForOption (enclosing : Option Ty) :
    Keeps p (substitutionForOption enclosing) := by
  match enclosing with
  | none =>
    rw [substitutionForOption]
    exact .pure
  | some t =>
    rw [substitutionForOption]
    exact keeps_substitutionFor t

end

theorem keeps_instanceMembers {t : Ty} : Keeps p (instanceMembers t) :=
  .get_bind (fun _ _ => rfl) fun _ _ => .pure

theorem keeps_updateInstance {t : Ty} {f : InstanceMembers → InstanceMembers} :
    Keeps p (updateInstance t f) :=
  keeps_apart (fun _ _ => rfl) fun _ => rfl

theorem keeps_instanceSupertypes {t : Ty} {generic : BindingId} :
    Keeps p (instanceSupertypes t generic) := by
  refine keeps_instanceMembers.bind fun members => ?_
  split
  · exact .pure
  · refine Keeps.ask.bind fun declared => (keeps_substitutionFor t).bind fun s => ?_
    extract_lets finish
    have finished : ∀ superclass, Keeps p (finish superclass) := fun _ =>
      .bind (.mapM fun _ _ => keeps_substitute) fun _ => keeps_updateInstance.bind fun _ => .pure
    split
    · exact keeps_substitute.map.bind finished
    · exact .bind .pure finished

theorem keeps_typeSupertypes (t : Ty) : Keeps p (typeSupertypes t) := by
  fun_induction typeSupertypes t with
  | case1 b => exact .ask
  | case2 generic args enclosing => exact keeps_instanceSupertypes
  | case3 generic enclosing => exact keeps_instanceSupertypes
  | case4 role path ih => exact ih
  | case5 c => exact .get_bind (fun _ _ => rfl) fun _ _ => .pure
  | case6 v =>
    refine .get_bind (fun _ _ => rfl) fun e _ => ?_
    split
    · exact .pure
    · exact keeps_objectType.bind fun _ => .pure
  | case7 => exact .pure

theorem keeps_instanceField {s : Substitution} {generic : FieldId} :
    Keeps p (instanceField s generic) :=
  Keeps.ask.bind fun _ => keeps_substitute.bind fun _ =>
    .get_bind (fun _ _ => rfl) fun _ _ => keeps_addField

theorem keeps_typeFields {t : Ty} : Keeps p (typeFields t) := by
  unfold typeFields
  split
  · split
    · exact .ask
    · exact .pure
  · refine (keeps_substitutionFor t).bind fun s => keeps_instanceMembers.bind fun members => ?_
    split
    · exact .pure
    · refine Keeps.ask.bind fun _ => .bind (.mapM fun _ _ => keeps_instanceField) fun _ => ?_
      exact keeps_updateInstance.bind fun _ => .pure

theorem keeps_instanceMethod {s : Substitution} {generic : MethodId} :
    Keeps p (instanceMethod s generic) := by
  refine .get_bind (fun _ _ => rfl) fun e _ => .bind (.mapM fun _ _ => keeps_substitute) fun _ => ?_
  refine keeps_substitute.bind fun _ => .bind (.mapM fun _ _ => keeps_substitute) fun _ => ?_
  exact keeps_newMethod

theorem keeps_typeMethods {t : Ty} : Keeps p (typeMethods t) := by
  unfold typeMethods
  split
  · split
    · exact .ask
    · exact .pure
  · refine (keeps_substitutionFor t).bind fun s => keeps_instanceMembers.bind fun members => ?_
    split
    · exact .pure
    · refine Keeps.ask.bind fun _ => .bind (.mapM fun _ _ => keeps_instanceMethod) fun _ => ?_
      exact keeps_updateInstance.bind fun _ => .pure

theorem keeps_memberTypesWithin {b : BindingId} {enclosing : Option Ty} :
    Keeps p (memberTypesWithin b enclosing) :=
  keeps_memberTypes.bind fun _ => .get_bind (fun _ _ => rfl) fun _ _ => .pure

theorem keeps_typeMemberTypes {t : Ty} : Keeps p (typeMemberTypes t) := by
  unfold typeMemberTypes
  split
  · refine keeps_instanceMembers.bind fun members => ?_
    split
    · exact .pure
    · exact keeps_memberTypesWithin.bind fun _ => keeps_updateInstance.bind fun _ => .pure
  · split
    · exact keeps_memberTypesWithin
    · exact .pure

theorem keeps_baseClassOf {t : Ty} : Keeps p (baseClassOf t) := by
  unfold baseClassOf
  split
  · exact .pure
  · refine Keeps.ask.bind fun base => ?_
    cases base with
    | none => exact .pure
    | some base => exact (keeps_substitutionFor t).bind fun _ => keeps_substitute.bind fun _ => .pure

theorem keeps_containsAll {pairs : List (Ty × Ty)} : Keeps p (containsAll pairs) := by
  induction pairs with
  | nil => exact .pure
  | cons pair pairs ih => exact Keeps.ask.bind fun _ => .ite ih .pure

theorem keeps_containsBothWays {pairs : List (Ty × Ty)} : Keeps p (containsBothWays pairs) := by
  induction pairs with
  | nil => exact .pure
  | cons pair pairs ih =>
    refine Keeps.ask.bind fun _ => .ite ?_ .pure
    exact Keeps.ask.bind fun _ => .ite ih .pure

theorem keeps_contains {arg other : Ty} : Keeps p (contains arg other) := by
  refine .ite .pure (keeps_objectType.bind fun object => ?_)
  split
  · exact .pure
  · exact .ask
  · exact .pure
  · exact .ask
  · exact .ask
  · exact .pure
  · exact .ask
  · exact .pure
  · exact .ask

theorem keeps_isEquivalent {a b : Ty} : Keeps p (isEquivalent a b) := by
  refine .ite .pure ?_
  split
  · refine .ite .pure (keeps_containsBothWays.bind fun _ => .ite ?_ .pure)
    split
    · exact .pure
    · exact .ask
    · exact .pure
  · exact .pure
  · exact .ask
  · exact .ite .ask .pure
  · exact .pure

theorem keeps_fitsTarget {found sup : Ty} : Keeps p (fitsTarget found sup) := by
  unfold fitsTarget
  split
  · exact .pure
  · exact .pure
  · exact .ite keeps_containsAll .pure
  · exact .pure

theorem keeps_reachesType {sub sup : Ty} : Keeps p (reachesType sub sup) := by
  unfold reachesType
  split
  · exact .pure
  · refine keeps_walk (fun t => (keeps_typeSupertypes t).bind fun _ => .pure) _ _ fun _ _ => ?_
    exact .ite .pure (keeps_fitsTarget.bind fun _ => .ite .pure .pure)

theorem keeps_anySubtype {sup : Ty} {ts : List Ty} : Keeps p (anySubtype sup ts) := by
  induction ts with
  | nil => exact .pure
  | cons t ts ih => exact Keeps.ask.bind fun _ => .ite .pure ih

theorem keeps_isSubtype {sub sup : Ty} : Keeps p (isSubtype sub sup) := by
  refine .get_bind (fun _ _ => rfl) fun e _ => .ite .pure (keeps_objectType.bind fun object => ?_)
  split
  · exact .pure
  · exact .pure
  · refine .ite .pure ?_
    split
    · exact .pure
    · exact .ite .ask .pure
    · exact .get_bind (fun _ _ => rfl) fun _ _ => keeps_anySubtype
    · exact .get_bind (fun _ _ => rfl) fun _ _ => .ask
    · refine .get_bind (fun _ _ => rfl) fun _ _ => ?_
      split
      · exact .ask
      · exact .pure
    · exact .ite .ask .pure
    · exact .pure
    · exact .ask
    · exact keeps_reachesType
    · exact keeps_reachesType
    · exact keeps_reachesType
    · exact .pure

theorem keeps_isCompatible {source target : Ty} : Keeps p (isCompatible source target) := by
  refine Keeps.ask.bind fun _ => .ite .pure ?_
  split
  · exact .pure
  · exact .ite (keeps_erasure.bind fun _ => keeps_erasure.bind fun _ => .ask) .pure

theorem keeps_capture (opens : p.Opens) {t : Ty} {site : Span} : Keeps p (capture t site) := by
  unfold capture
  split
  · refine .ite ?_ .pure
    refine Keeps.ask.bind fun vars => keeps_objectType.bind fun object => ?_
    refine .bind (.mapM fun arg _ => .get_bind (fun _ _ => rfl) fun _ _ => ?_) fun _ => .pure
    dsimp only
    split
    · exact (keeps_addCapture opens).bind fun _ => .pure
    · exact .pure
  · exact .pure

theorem keeps_withinBounds {s : Substitution} {arg : Ty} {bounds : List Ty} :
    Keeps p (checkBound.withinBounds s arg bounds) := by
  induction bounds with
  | nil => exact .pure
  | cons bound bounds ih =>
    exact keeps_substitute.bind fun _ => Keeps.ask.bind fun _ => .ite ih .pure

theorem keeps_checkBound {check : BoundCheck} : Keeps p (checkBound check) := by
  unfold checkBound
  split
  · refine Keeps.ask.bind fun vars => (keeps_substitutionFor _).bind fun s => ?_
    refine .forM fun pair _ => .get_bind (fun _ _ => rfl) fun _ _ =>
      .ite .pure (.get_bind (fun _ _ => rfl) fun _ _ => ?_)
    refine keeps_withinBounds.bind fun _ => .ite .pure ?_
    exact .get_bind (fun _ _ => by simp) fun _ _ => keeps_reportInUnit
  · exact .pure

theorem keeps_defaultSuperclass {b : BindingId} : Keeps p (defaultSuperclass b) := by
  refine .get_bind (fun _ _ => rfl) fun e _ => .ite .pure (.ite ?_ ?_)
  · exact keeps_wellKnownType.bind fun _ => .pure
  · exact keeps_objectType.bind fun _ => .pure

theorem keeps_declaredSupertypes (queues : p.QueuesAll) {b : BindingId} {decl : TypeDecl}
    {unit : UnitId} : Keeps p (declaredSupertypes b decl unit) := by
  refine .get_bind (fun _ _ => rfl) fun e _ => ?_
  extract_lets site written finish
  have finished : ∀ superclass, Keeps p (finish superclass) := fun _ =>
    (keeps_typesOfSpecs (queues _ _)).bind fun _ => .pure
  clear_value written
  cases written with
  | some spec => exact (keeps_typeOfSpec (queues _ _) _).map.bind finished
  | none => exact keeps_defaultSuperclass.bind finished

theorem keeps_bareTypeNamed {name : String} : Keeps p (bareTypeNamed name) :=
  keeps_findTypeOrProblem.bind fun _ => .get_bind (fun _ _ => rfl) fun _ _ => .pure

theorem keeps_namedSupertypes {d : Descriptor} : Keeps p (namedSupertypes d) := by
  unfold namedSupertypes
  extract_lets finish
  have finished : ∀ superclass, Keeps p (finish superclass) := fun _ =>
    .bind (.mapM fun _ _ => keeps_bareTypeNamed) fun _ => .pure
  split
  · exact keeps_bareTypeNamed.map.bind finished
  · exact .bind .pure finished

theorem keeps_compiledSupertypes {b : BindingId} {d : Descriptor} :
    Keeps p (compiledSupertypes b d) := by
  unfold compiledSupertypes
  split
  · exact keeps_namedSupertypes
  · exact keeps_reportFor.bind fun _ => keeps_namedSupertypes
  · extract_lets scope finish
    have finished : ∀ superclass, Keeps p (finish superclass) := fun _ =>
      .bind (.mapM fun _ _ => keeps_typeOfClass) fun _ => .pure
    exact .ite (keeps_typeOfClass.map.bind finished) (.bind .pure finished)

theorem keeps_replacementEdge {b : BindingId} {edge : SupertypeEdge} :
    Keeps p (replacementEdge b edge) :=
  .get_bind (fun _ _ => rfl) fun _ _ => .ite .pure (keeps_objectType.bind fun _ => .pure)

theorem keeps_markProblems {b : BindingId} : Keeps p (markProblems b) :=
  keeps_updateBinding .markProblems

theorem keeps_checkDeclaredEdge {b : BindingId} {candidate : Ty} {target : BindingId}
    {edge : SupertypeEdge} : Keeps p (checkDeclaredEdge b candidate target edge) := by
  refine .get_bind (fun _ _ => rfl) fun e _ => ?_
  extract_lets x above shown
  cases edge with
  | superclass =>
    refine .ite (keeps_reportFor.bind fun _ => keeps_replacementEdge) ?_
    exact .ite (keeps_reportFor.bind fun _ => .pure) .pure
  | interface => exact .ite .pure (keeps_reportFor.bind fun _ => .pure)

theorem keeps_checkEdge {b : BindingId} {edge : SupertypeEdge} {candidate : Ty} :
    Keeps p (checkEdge b edge candidate) := by
  refine .get_bind (fun _ _ => by simp only [Env.typeName_under]; rfl) fun e _ => ?_
  extract_lets x replace
  have replaced : ∀ r, Keeps p (replace r) := fun _ => keeps_replacementEdge
  split
  · exact .ite (keeps_reportFor.bind replaced) (replaced ())
  · refine .ite (keeps_markProblems.bind fun _ => .pure) ?_
    extract_lets declare settle
    have declared : ∀ r, Keeps p (declare r) := fun _ => .ite keeps_checkDeclaredEdge .pure
    have settled : ∀ isCycle, Keeps p (settle isCycle) := by
      refine fun _ => .get_bind (fun _ _ => rfl) fun _ _ => ?_
      refine .ite (keeps_reportFor.bind fun _ => keeps_replacementEdge) ?_
      exact .ite (keeps_markProblems.bind declared) (declared ())
    exact .ite (.bind .pure settled) (keeps_reaches.bind settled)

theorem keeps_keepInterface {b : BindingId} {kept : List Ty} {candidate : Ty} :
    Keeps p (keepInterface b kept candidate) := by
  refine keeps_checkEdge.bind fun found => ?_
  cases found with
  | some t => exact .pure
  | none => exact .pure

theorem keeps_checkedSupertypes {b : BindingId} :
    KeepsFrom p (fun e => (e.binding b).isSource = true → p.QueuesAll) (checkedSupertypes b) := by
  refine .get_bind (fun _ _ => rfl) fun e _ queues => Keeps.under ?_
  extract_lets finish
  have finished : ∀ written, Keeps p (finish written) := by
    intro written
    dsimp -zeta only [finish]
    extract_lets complete
    have completed : ∀ superclass, Keeps p (complete superclass) := fun _ =>
      .bind (.foldlM (fun _ _ _ => keeps_keepInterface) _) fun _ => .pure
    split
    · exact keeps_checkEdge.bind completed
    · exact .bind .pure completed
  split
  · next origin => exact (keeps_declaredSupertypes (queues (Binding.isSource_of_origin origin))).bind finished
  · exact keeps_compiledSupertypes.bind finished
  · exact .bind .pure finished

theorem keeps_supertypes {b : BindingId} : Keeps p (supertypes b) := by
  refine keeps_known_bind_from fun x ready => ?_
  split
  · exact Keeps.pure.under
  · exact Keeps.pure.under
  · next fresh =>
    refine keeps_updateBinding_bind (.setSupertypes (by nofun)) (keeps_checkedSupertypes.bind fun s => ?_)
      fun e here source => ?_
    · refine (keeps_updateBinding (.setSupertypes (by nofun))).bind fun _ =>
        .get_bind (fun _ _ => rfl) fun _ _ => ?_
      exact .ite (keeps_reportFor.bind fun _ => .pure) .pure
    · rw [Binding.Steady.isSource_update (.setSupertypes (by nofun)), here] at source
      exact (ready source).resolve_left fun begun => begun.supertypes fresh

theorem keeps_inheritedBaseClass {b : BindingId} : Keeps p (inheritedBaseClass b) := by
  refine .get_bind (fun _ _ => rfl) fun e _ => .ite ?_ .pure
  refine keeps_superclassOf.bind fun _ => .get_bind (fun _ _ => rfl) fun _ _ => ?_
  refine .bind (.findSomeM? fun _ _ => .ask) fun found => ?_
  cases found with
  | some base => exact .pure
  | none => exact keeps_tsuperRoles.bind fun _ => .findSomeM? fun _ _ => .ask

theorem keeps_checkDeclaredBase {b : BindingId} {base : Ty} {unit : UnitId} :
    Keeps p (checkDeclaredBase b base unit) := by
  refine .get_bind (fun _ _ => by simp only [Env.enclosingChain_under]; rfl) fun e _ => ?_
  extract_lets role report done
  have reported {id : ProblemId} {arguments : List String} : Keeps p (report id arguments) :=
    keeps_reportInUnit
  refine .ite (.ite .pure ?_) (reported.bind fun _ => .pure)
  split
  · exact .pure
  · extract_lets name refines check
    have refined : ∀ r, Keeps p (refines r) := by
      refine fun _ => keeps_inheritedBaseClass.bind fun inherited => ?_
      cases inherited with
      | none => exact .pure
      | some inherited =>
        refine .get_bind (fun _ _ => rfl) fun _ _ => .ite .pure ?_
        refine Keeps.ask.bind fun _ => .ite .pure ?_
        refine .get_bind (fun _ _ => ?_) fun _ _ => reported.bind fun _ => .pure
        rw [Env.typeName_under]
    have checked : ∀ isCycle, Keeps p (check isCycle) := by
      refine fun _ => .ite (reported.bind fun _ => .pure) ?_
      refine .get_bind (fun _ _ => by rw [Env.isVisibleFrom_under]; rfl) fun _ _ => ?_
      refine .ite (reported.bind fun _ => .pure) ?_
      exact .ite (refined ()) (reported.bind refined)
    exact .ite (.bind .pure checked) (keeps_reaches.bind checked)

theorem keeps_baseClass {b : BindingId} : Keeps p (baseClass b) := by
  refine keeps_known_bind fun x ready => ?_
  extract_lets finish
  have finished : ∀ base, Keeps p (finish base) := fun _ =>
    (keeps_updateBinding (.setBaseClass (by nofun))).bind fun _ => .pure
  split
  · exact .pure
  · exact .pure
  · next fresh =>
    refine (keeps_updateBinding (.setBaseClass (by nofun))).bind fun _ => ?_
    split
    · next decl unit origin =>
      have queues := queuesAll_of_fresh ready origin fun begun => begun.baseClass fresh
      split
      · refine .get_bind (fun _ _ => rfl) fun _ _ => ?_
        refine (keeps_typeOfSpec (queues _ _) _).bind fun _ => ?_
        exact keeps_checkDeclaredBase.bind finished
      · exact keeps_inheritedBaseClass.bind finished
    · split
      · refine .ite ?_ (.bind .pure finished)
        exact keeps_findTypeOrProblem.bind fun _ => .get_bind (fun _ _ => rfl) fun _ _ =>
          .bind .pure finished
      · exact .bind .pure finished
    · exact .bind .pure finished

theorem keeps_roleBase {t : Ty} : Keeps p (roleBase t) := by
  refine .get_bind (fun _ _ => rfl) fun e _ => ?_
  split
  · exact .ite keeps_baseClassOf .pure
  · exact .pure

theorem keeps_canLift {source target : Ty} : Keeps p (canLift source target) := by
  fun_induction canLift source target with
  | case1 source target ih =>
    refine keeps_isCompatible.bind fun _ => .ite .pure ?_
    split
    · exact ih
    · refine keeps_roleBase.bind fun base => ?_
      cases base with
      | some base => exact keeps_isCompatible
      | none => exact .pure

theorem keeps_canLower {source target : Ty} : Keeps p (canLower source target) := by
  fun_induction canLower source target with
  | case1 source target ih =>
    refine keeps_isCompatible.bind fun _ => .ite .pure ?_
    split
    · exact ih
    · refine keeps_roleBase.bind fun base => ?_
      cases base with
      | some base => exact keeps_isCompatible
      | none => exact .pure

end TeamRoles.Resolve
