import TeamRoles.Proofs.Pairing.References

/-!
The members of types are resolved alike in both environments of a pair, those that roles inherit by
copies among them.
-/

namespace TeamRoles.Resolve

variable {p : Pairing}

theorem queuesAll_of_fresh {x : Binding} {decl : TypeDecl} {unit : UnitId}
    (ready : x.isSource = true → x.Begun ∨ p.QueuesAll) (origin : x.origin = .source decl unit)
    (fresh : ¬ x.Begun) : p.QueuesAll :=
  (ready (Binding.isSource_of_origin origin)).resolve_left fresh

theorem keeps_addTypeVars {owner : TypeVarOwner} {names : List String} :
    Keeps p (addTypeVars owner names) :=
  .mapM fun _ _ => keeps_addTypeVar

theorem keeps_setBounds {vars : List TypeVarId} {bounds : List (Resolve (List Ty))}
    (h : ∀ x ∈ bounds, Keeps p x) : Keeps p (setBounds vars bounds) := by
  unfold setBounds
  refine .forM fun entry hEntry => ?_
  exact (h entry.2 (List.of_mem_zip hEntry).2).bind fun _ => keeps_updateTypeVar

theorem keeps_declaredBounds {site : Site} (queues : p.Queues site.unit site.span)
    {params : List TypeParamDecl} : ∀ x ∈ declaredBounds site params, Keeps p x :=
  List.forall_mem_map.2 fun _ _ => keeps_typesOfSpecs queues

theorem keeps_signatureBounds {scope : SignatureScope} {formals : List Signature.Formal} :
    ∀ x ∈ signatureBounds scope formals, Keeps p x :=
  List.forall_mem_map.2 fun _ _ => .mapM fun t _ => keeps_typeOfSig t

theorem keeps_publishTypeVars {b : BindingId} {names : List String}
    {bounds : List (Resolve (List Ty))} (h : ∀ x ∈ bounds, Keeps p x) :
    Keeps p (publishTypeVars b names bounds) := by
  refine keeps_addTypeVars.bind fun vars => ?_
  refine (keeps_updateBinding (.setTypeVariables (by nofun))).bind fun _ => ?_
  exact (keeps_setBounds h).bind fun _ => .pure

theorem keeps_typeVariables {b : BindingId} : Keeps p (typeVariables b) := by
  refine keeps_known_bind fun x ready => ?_
  split
  · exact .pure
  · exact keeps_reentrant
  · next fresh =>
    refine (keeps_updateBinding (.setTypeVariables (by nofun))).bind fun _ => ?_
    split
    · next decl unit origin =>
      have queues := queuesAll_of_fresh ready origin fun begun => begun.typeVariables fresh
      exact .get_bind (fun _ _ => rfl) fun _ _ =>
        keeps_publishTypeVars (keeps_declaredBounds (queues _ _))
    · exact keeps_publishTypeVars keeps_signatureBounds
    · exact keeps_publishTypeVars (List.forall_mem_nil _)

theorem keeps_superTeams {σ : Type} {start : List BindingId} {found : σ}
    {visit : σ → BindingId → Resolve σ} (h : ∀ s b, Keeps p (visit s b)) :
    Keeps p (superTeams start found visit) := by
  refine keeps_walk (fun _ => keeps_superclassOf.bind fun _ => .pure) _ _ fun s b => ?_
  exact .get_bind (fun _ _ => rfl) fun _ _ => .ite ((h s b).bind fun _ => .pure) .pure

theorem keeps_setTsuperRoles {role : BindingId} {slot : Slot (List BindingId)} :
    Keeps p (setTsuperRoles role slot) :=
  keeps_updateBinding .setTsuperRoles

theorem keeps_roleNamed {team : BindingId} {simple : String} : Keeps p (roleNamed team simple) :=
  keeps_memberTypes.bind fun _ => .get_bind (fun _ _ => rfl) fun _ _ => .pure

theorem keeps_tsuperRoles {role : BindingId} : Keeps p (tsuperRoles role) := by
  refine .get_bind (fun _ _ => rfl) fun e _ => ?_
  extract_lets x
  split
  · exact .pure
  · split
    · exact .pure
    · exact keeps_reentrant
    · refine keeps_setTsuperRoles.bind fun _ => keeps_superclassOf.bind fun above => ?_
      refine .bind (keeps_superTeams fun found team => ?_) fun list => ?_
      · exact keeps_memberTypes.bind fun _ => .get_bind (fun _ _ => rfl) fun _ _ => .pure
      · exact keeps_setTsuperRoles.bind fun _ => .pure

theorem keeps_rebindRole {role team : BindingId} : Keeps p (rebindRole role team) := by
  refine .get_bind (fun _ _ => rfl) fun e _ => ?_
  split
  · exact .pure
  · exact .ite .pure (keeps_roleNamed.bind fun _ => .pure)

theorem keeps_rebindType {team : BindingId} (t : Ty) : Keeps p (rebindType team t) := by
  fun_induction rebindType team t with
  | case1 b => exact keeps_rebindRole.bind fun _ => .pure
  | case2 component ih => exact ih.bind fun _ => .pure
  | case3 role path ih => exact ih.bind fun _ => .pure
  | case4 => exact .pure

theorem keeps_declareField (queues : p.QueuesAll) {b : BindingId} {unit : UnitId}
    {fields : List FieldId} {decl : FieldDecl} : Keeps p (declareField b unit fields decl) := by
  refine .get_bind (fun _ _ => rfl) fun e _ => .ite (keeps_reportInUnit.bind fun _ => .pure) ?_
  refine (keeps_typeOfSpec (queues _ _) _).bind fun _ => ?_
  exact keeps_addField.bind fun _ => .pure

theorem keeps_compiledFieldType {b : BindingId} {d : Descriptor} {m : Descriptor.Member} :
    Keeps p (compiledFieldType b d m) := by
  unfold compiledFieldType
  split
  · exact keeps_typeOfSig _
  · exact keeps_reportFor.bind fun _ => keeps_problemType

theorem keeps_compiledField {b : BindingId} {d : Descriptor} {m : Descriptor.Member} :
    Keeps p (compiledField b d m) := by
  refine .get_bind (fun _ _ => rfl) fun e _ => .ite ?_ .pure
  refine keeps_compiledFieldType.bind fun _ => .get_bind (fun _ _ => rfl) fun _ _ => ?_
  exact keeps_addField.bind fun _ => .pure

theorem keeps_teamOf {role : BindingId} : Keeps p (teamOf role) := by
  refine .get_bind (fun _ _ => rfl) fun e _ => ?_
  split
  · exact .pure
  · exact .throw

theorem keeps_copyField {role team : BindingId} {fields : List FieldId} {inherited : FieldId} :
    Keeps p (copyField role team fields inherited) := by
  refine .get_bind (fun _ _ => rfl) fun e _ => .ite .pure ?_
  exact (keeps_rebindType _).bind fun _ => keeps_addField.bind fun _ => .pure

theorem keeps_copyFields {role : BindingId} {fields : List FieldId} :
    Keeps p (copyFields role fields) := by
  refine keeps_teamOf.bind fun _ => keeps_tsuperRoles.bind fun _ => ?_
  refine .foldlM (fun _ _ _ => Keeps.ask.bind fun _ => ?_) _
  exact .foldlM (fun _ _ _ => keeps_copyField) _

theorem keeps_fields {b : BindingId} : Keeps p (fields b) := by
  refine keeps_known_bind fun x ready => ?_
  extract_lets finish complete
  have finished : ∀ list, Keeps p (finish list) := by
    refine fun list => (keeps_updateBinding (.setFields (by nofun))).bind fun _ => ?_
    exact .bind (.forM fun _ _ => Keeps.ask.discard) fun _ => .pure
  have completed : ∀ own, Keeps p (complete own) := fun _ =>
    .ite (keeps_copyFields.bind finished) (.bind .pure finished)
  split
  · exact .pure
  · exact keeps_reentrant
  · next fresh =>
    refine (keeps_updateBinding (.setFields (by nofun))).bind fun _ => ?_
    split
    · next decl unit origin =>
      have queues := queuesAll_of_fresh ready origin fun begun => begun.fields fresh
      exact .bind (.foldlM (fun _ _ _ => keeps_declareField queues) _) completed
    · exact .bind (.filterMapM fun _ _ => keeps_compiledField) completed
    · exact .bind .pure completed

theorem keeps_findFieldInScope {b : BindingId} {name : String} :
    Keeps p (findFieldInScope b name) := by
  refine .get_bind (fun _ _ => ?_) fun _ _ => .findSomeM? fun _ _ => keeps_findField
  rw [Env.enclosingChain_under]

theorem keeps_followPath {f : FieldId} {path : String} {reached : Option (Ty × List FieldId)}
    {names : List String} : Keeps p (followPath f path reached names) := by
  induction names generalizing reached with
  | nil => exact .pure
  | cons name names ih =>
    refine .get_bind (fun _ _ => rfl) fun e _ => ?_
    extract_lets field before follow
    have followed : ∀ found, Keeps p (follow found) := by
      intro found
      dsimp only [follow]
      split
      · exact keeps_reportFor.bind fun _ => .pure
      · refine .get_bind (fun _ _ => rfl) fun _ _ => .ite (Keeps.ask.bind fun _ => ih) ?_
        exact keeps_reportFor.bind fun _ => .pure
    split
    · exact keeps_findFieldInScope.bind followed
    · split
      · exact keeps_findField.bind followed
      · exact .bind .pure followed

theorem keeps_roleAtAnchor {f : FieldId} {path role : String} {t : Ty} {fields : List FieldId} :
    Keeps p (roleAtAnchor f path role t fields) := by
  refine .get_bind (fun _ _ => by simp) fun e _ => ?_
  extract_lets field
  split
  · exact keeps_reportFor.bind fun _ => keeps_problemType
  · refine keeps_findMemberType.bind fun _ => .get_bind (fun _ _ => rfl) fun _ _ => ?_
    split
    · exact .pure
    · exact keeps_reportFor.bind fun _ => keeps_problemType

theorem keeps_resolveAnchor {f : FieldId} {anchor : PendingAnchor} :
    Keeps p (resolveAnchor f anchor) := by
  refine keeps_followPath.bind fun reached => ?_
  cases reached with
  | none => exact keeps_problemType
  | some reached =>
    exact .get_bind (fun _ _ => rfl) fun _ _ => .ite keeps_problemType keeps_roleAtAnchor

theorem keeps_fieldType {f : FieldId} : Keeps p (fieldType f) := by
  refine .get_bind (fun _ _ => rfl) fun e _ => ?_
  extract_lets field
  split
  · exact .pure
  · refine .ite (keeps_reportFor.bind fun _ => keeps_problemType) ?_
    refine .bind (keeps_apart (fun _ _ => rfl) fun _ => rfl) fun _ =>
      keeps_resolveAnchor.attempt.bind fun outcome => ?_
    refine .bind (keeps_apart (fun _ _ => rfl) fun _ => rfl) fun _ => ?_
    cases outcome with
    | error abort => exact .throw
    | ok type => exact keeps_updateField.bind fun _ => .pure

theorem keeps_enhancingArgType {arg : EnhancingArg} : Keeps p (enhancingArgType arg) := by
  cases arg with
  | baseArg => exact keeps_wellKnownType
  | teams => exact keeps_wellKnownType.bind fun _ => .pure
  | index => exact .pure
  | boundMethodId => exact .pure
  | callinIds => exact .pure
  | args => exact keeps_objectType.bind fun _ => .pure

theorem keeps_enhancingArgTypes : Keeps p enhancingArgTypes :=
  .get_bind (fun _ _ => rfl) fun _ _ => .mapM fun _ _ => keeps_enhancingArgType

theorem keeps_enhance {declared : MethodType} : Keeps p (enhance declared) := by
  refine keeps_enhancingArgTypes.bind fun _ => .ite .pure ?_
  exact .ite (.bind .pure fun _ => .pure) (keeps_objectType.bind fun _ => .pure)

theorem keeps_newMethod {m : Method} : Keeps p (newMethod m) :=
  .ite (keeps_enhance.bind fun _ => keeps_addMethod) (.bind .pure fun _ => keeps_addMethod)

theorem keeps_recordOverride {own inherited : MethodId} {ret : Ty} :
    Keeps p (recordOverride own inherited ret) := by
  refine keeps_updateMethod.bind fun _ => .get_bind (fun _ _ => by simp) fun e _ => ?_
  extract_lets m check
  have checked : ∀ r, Keeps p (check r) := by
    refine fun _ => .ite .pure (Keeps.ask.bind fun _ => .ite .pure ?_)
    exact .get_bind (fun _ _ => by simp) fun _ _ => keeps_reportFor
  exact .ite (keeps_reportFor.bind checked) (checked ())

theorem keeps_copyMethod {role team : BindingId} {methods : List MethodId}
    {inherited : MethodId} : Keeps p (copyMethod role team methods inherited) := by
  refine .get_bind (fun _ _ => rfl) fun e _ => .ite .pure ?_
  refine .bind (.mapM fun t _ => keeps_rebindType t) fun _ => (keeps_rebindType _).bind fun _ => ?_
  refine .get_bind (fun _ _ => by simp only [Env.sameErasures_under]; rfl) fun _ _ => ?_
  extract_lets existing kept
  clear_value existing
  cases existing with
  | some own => exact .ite .pure (keeps_recordOverride.bind fun _ => .pure)
  | none => exact keeps_newMethod.bind fun _ => .pure

theorem keeps_copyMethods {role : BindingId} {methods : List MethodId} :
    Keeps p (copyMethods role methods) := by
  refine keeps_teamOf.bind fun _ => keeps_tsuperRoles.bind fun _ => ?_
  refine .foldlM (fun _ _ _ => Keeps.ask.bind fun _ => ?_) _
  exact .foldlM (fun _ _ _ => keeps_copyMethod) _

theorem keeps_linkSurrogate {callin surrogate : MethodId} :
    Keeps p (linkSurrogate callin surrogate) :=
  keeps_updateMethod.bind fun _ => .get_bind (fun _ _ => rfl) fun _ _ => keeps_updateMethod

theorem keeps_attachSurrogate {role : BindingId} {methods : List MethodId} {callin : MethodId} :
    Keeps p (attachSurrogate role methods callin) := by
  refine .get_bind (fun _ _ => rfl) fun e _ => ?_
  split
  · exact keeps_linkSurrogate.bind fun _ => .pure
  · refine .bind (.get_bind (fun _ _ => rfl) fun _ _ => keeps_newMethod) fun _ => ?_
    exact keeps_linkSurrogate.bind fun _ => .pure

theorem keeps_attachSurrogates {role : BindingId} {methods : List MethodId} :
    Keeps p (attachSurrogates role methods) :=
  .get_bind (fun _ _ => rfl) fun _ _ => .foldlM (fun _ _ _ => keeps_attachSurrogate) _

theorem keeps_declareMethod (queues : p.QueuesAll) {b : BindingId} {unit : UnitId}
    {methods : List MethodId} {decl : MethodDecl} :
    Keeps p (declareMethod b unit methods decl) := by
  refine keeps_addTypeVars.bind fun vars => ?_
  refine (keeps_setBounds (keeps_declaredBounds (queues _ _))).bind fun _ => ?_
  refine (keeps_typesOfSpecs (queues _ _)).bind fun params => ?_
  extract_lets site written finish
  have finished : ∀ ret, Keeps p (finish ret) := by
    refine fun _ => (keeps_typesOfSpecs (queues _ _)).bind fun _ =>
      .get_bind (fun _ _ => rfl) fun _ _ => ?_
    refine keeps_newMethod.bind fun _ => .get_bind (fun _ _ => by simp) fun _ _ => ?_
    exact .ite (keeps_reportInUnit.bind fun _ => .pure) .pure
  split
  · exact (keeps_typeOfSpec (queues _ _) _).bind finished
  · exact .bind .pure finished

theorem keeps_calloutSignature {role : BindingId} {callout : CalloutDecl} :
    Keeps p (calloutSignature role callout) := by
  refine Keeps.ask.bind fun base => ?_
  split
  · exact .pure
  · split
    · refine keeps_methodsInProgress.bind fun _ => .ite (keeps_reportFor.bind fun _ => .pure) ?_
      refine keeps_findMethods.bind fun found => ?_
      split
      · exact .get_bind (fun _ _ => rfl) fun _ _ => .pure
      · exact .pure
    all_goals
      refine keeps_findField.bind fun found => ?_
      cases found with
      | none => exact .pure
      | some f => exact Keeps.ask.bind fun _ => .pure

theorem keeps_shortCalloutType (queues : p.QueuesAll) {role : BindingId} {unit : UnitId}
    {callout : CalloutDecl} : Keeps p (shortCalloutType role unit callout) := by
  unfold shortCalloutType
  extract_lets site complete
  have completed : ∀ params, Keeps p (complete params) := by
    intro params
    dsimp -zeta only [complete]
    extract_lets finish
    have finished : ∀ ret, Keeps p (finish ret) := by
      intro ret
      dsimp only [finish]
      split
      · exact .pure
      · refine keeps_calloutSignature.bind fun base => ?_
        cases base with
        | some base => exact .pure
        | none => exact .pure
    split
    · exact (keeps_typeOfSpec (queues _ _) _).map.bind finished
    · exact .bind .pure finished
  split
  · exact (keeps_typesOfSpecs (queues _ _)).map.bind completed
  · exact .bind .pure completed

theorem keeps_addShortCallout (queues : p.QueuesAll) {role : BindingId} {unit : UnitId}
    {methods : List MethodId} {callout : CalloutDecl} :
    Keeps p (addShortCallout role unit methods callout) := by
  refine .get_bind (fun _ _ => rfl) fun e _ =>
    .ite .pure ((keeps_shortCalloutType queues).bind fun declared => ?_)
  cases declared with
  | none => exact .pure
  | some declared => exact keeps_newMethod.bind fun _ => .pure

theorem keeps_declaredMethods (queues : p.QueuesAll) {b : BindingId} {decl : TypeDecl}
    {unit : UnitId} : Keeps p (declaredMethods b decl unit) := by
  refine .bind (.foldlM (fun _ _ _ => keeps_declareMethod queues) _) fun _ => ?_
  refine .get_bind (fun _ _ => rfl) fun _ _ => .ite ?_ .pure
  exact .foldlM (fun _ _ _ => keeps_addShortCallout queues) _

theorem keeps_compiledMethod {b : BindingId} {d : Descriptor} {m : Descriptor.Member} :
    Keeps p (compiledMethod b d m) := by
  refine .get_bind (fun _ _ => rfl) fun e _ => .ite ?_ .pure
  dsimp only
  split
  · exact keeps_reportFor.bind fun _ => .pure
  · refine keeps_addTypeVars.bind fun vars => ?_
    refine (keeps_setBounds keeps_signatureBounds).bind fun _ => ?_
    refine .bind (.mapM fun t _ => keeps_typeOfSig t) fun _ => (keeps_typeOfSig _).bind fun _ => ?_
    exact .bind (.mapM fun t _ => keeps_typeOfSig t) fun _ => keeps_newMethod.bind fun _ => .pure

theorem keeps_methods {b : BindingId} : Keeps p (methods b) := by
  refine keeps_known_bind fun x ready => ?_
  extract_lets finish attach complete
  have finished : ∀ list, Keeps p (finish list) := fun _ =>
    (keeps_updateBinding (.setMethods (by nofun))).bind fun _ => .pure
  have attached : ∀ copied, Keeps p (attach copied) := fun _ =>
    .ite (keeps_attachSurrogates.bind finished) (.bind .pure finished)
  have completed : ∀ own, Keeps p (complete own) := fun _ =>
    .ite (keeps_copyMethods.bind attached) (.bind .pure attached)
  split
  · exact .pure
  · exact keeps_reentrant
  · next fresh =>
    refine (keeps_updateBinding (.setMethods (by nofun))).bind fun _ => ?_
    split
    · next decl unit origin =>
      have queues := queuesAll_of_fresh ready origin fun begun => begun.methods fresh
      exact (keeps_declaredMethods queues).bind completed
    · exact .bind (.filterMapM fun _ _ => keeps_compiledMethod) completed
    · exact .bind .pure completed

end TeamRoles.Resolve
