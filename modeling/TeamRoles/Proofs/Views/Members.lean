import TeamRoles.Proofs.Lawful.Mapping
import TeamRoles.Proofs.Views.Basic

/-!
Views while methods are made and searched for. Methods are written, compiled, copied, instantiated, made from
callouts and made as surrogates, and nothing but the making of a method changes what methods show.
-/

namespace TeamRoles.Resolve

variable {b role : BindingId} {unit : UnitId} {m : MethodId} {list : List MethodId} {t : Ty}

theorem keepsViews_findMethods {name : String} : KeepsViews (findMethods b name) :=
  keepsViews_walk (fun _ => .of_lawful lawful_above) _ _ fun _ _ =>
    KeepsViews.ask.bind fun _ => .get_bind fun _ => .pure

theorem keepsViews_selectMethod {spec : MethodSpec} {site : Site} {selection : Selection} :
    KeepsViews (selectMethod b spec site selection) := by
  refine keepsViews_findMethods.bind fun all => .of_lawful ?_
  refine .bind .get fun e => ?_
  extract_lets candidates shown choose
  have chosen : ∀ selected, Lawful 4 (choose selected) := by
    intro selected
    dsimp only [choose]
    split
    · exact .pure
    · exact .bind lawful_reportInUnit fun _ => .pure
    · exact .bind lawful_reportInUnit fun _ => .pure
  split
  · exact .bind .pure chosen
  · exact .bind lawful_typesOfSpecs fun _ => .bind .get fun _ => .bind .pure chosen

theorem keepsViews_declareMethod {decl : MethodDecl} : KeepsViews (declareMethod b unit list decl) := by
  refine (KeepsViews.of_lawful lawful_addTypeVars).bind fun vars => ?_
  refine (KeepsViews.of_lawful (lawful_setBounds lawful_declaredBounds)).bind fun _ => ?_
  refine (KeepsViews.of_lawful lawful_typesOfSpecs).bind fun params => ?_
  extract_lets site written finish
  have finished : ∀ ret, KeepsViews (finish ret) := by
    refine fun ret => (KeepsViews.of_lawful lawful_typesOfSpecs).bind fun exceptions => .get_bind fun e => ?_
    refine (keepsViews_newMethod rfl).bind fun m => .get_bind fun e => .ite ?_ .pure
    exact (KeepsViews.of_lawful lawful_reportInUnit).bind fun _ => .pure
  split
  · exact (KeepsViews.of_lawful (lawful_typeOfSpec _)).bind finished
  · exact KeepsViews.pure.bind finished

theorem keepsViews_calloutSignature {callout : CalloutDecl} : KeepsViews (calloutSignature role callout) := by
  refine KeepsViews.ask.bind fun base => ?_
  split
  · exact .pure
  · split
    · refine (KeepsViews.of_lawful lawful_methodsInProgress).bind fun _ => .ite ?_ ?_
      · exact (KeepsViews.of_lawful lawful_reportFor).bind fun _ => .pure
      · refine keepsViews_findMethods.bind fun found => ?_
        split
        · exact .get_bind fun _ => .pure
        · exact .pure
    all_goals
      refine (KeepsViews.of_lawful lawful_findField).bind fun found => ?_
      cases found with
      | none => exact .pure
      | some f => exact KeepsViews.ask.bind fun _ => .pure

theorem keepsViews_shortCalloutType {callout : CalloutDecl} : KeepsViews (shortCalloutType role unit callout) := by
  unfold shortCalloutType
  extract_lets site complete
  have completed : ∀ params, KeepsViews (complete params) := by
    intro params
    dsimp -zeta only [complete]
    extract_lets finish
    have finished : ∀ ret, KeepsViews (finish ret) := by
      intro ret
      dsimp only [finish]
      split
      · exact .pure
      · refine keepsViews_calloutSignature.bind fun base => ?_
        cases base with
        | some base => exact .pure
        | none => exact .pure
    split
    · exact (KeepsViews.of_lawful (lawful_typeOfSpec _)).map.bind finished
    · exact KeepsViews.pure.bind finished
  split
  · exact (KeepsViews.of_lawful lawful_typesOfSpecs).map.bind completed
  · exact KeepsViews.pure.bind completed

theorem keepsViews_addShortCallout {callout : CalloutDecl} :
    KeepsViews (addShortCallout role unit list callout) := by
  refine .get_bind fun e => .ite .pure (keepsViews_shortCalloutType.bind fun declared => ?_)
  cases declared with
  | none => exact .pure
  | some declared => exact (keepsViews_newMethod rfl).bind fun _ => .pure

theorem keepsViews_declaredMethods {decl : TypeDecl} : KeepsViews (declaredMethods b decl unit) := by
  refine KeepsViews.bind (.foldlM (fun _ _ => keepsViews_declareMethod) _) fun methods => .get_bind fun e => ?_
  exact .ite (.foldlM (fun _ _ => keepsViews_addShortCallout) _) .pure

theorem keepsViews_compiledMethod {d : Descriptor} {member : Descriptor.Member} :
    KeepsViews (compiledMethod b d member) := by
  refine .get_bind fun e => .ite ?_ .pure
  dsimp only
  split
  · exact (KeepsViews.of_lawful lawful_reportFor).bind fun _ => .pure
  · refine (KeepsViews.of_lawful lawful_addTypeVars).bind fun vars => ?_
    refine (KeepsViews.of_lawful (lawful_setBounds lawful_signatureBounds)).bind fun _ => ?_
    refine (KeepsViews.of_lawful (.mapM fun _ => lawful_typeOfSig _)).bind fun _ => ?_
    refine (KeepsViews.of_lawful (lawful_typeOfSig _)).bind fun _ => ?_
    refine (KeepsViews.of_lawful (.mapM fun _ => lawful_typeOfSig _)).bind fun _ => ?_
    exact (keepsViews_newMethod rfl).bind fun _ => .pure

theorem keepsViews_recordOverride {own inherited : MethodId} {ret : Ty} :
    KeepsViews (recordOverride own inherited ret) := by
  refine (keepsViews_updateMethod fun m => ?_).bind fun _ => .get_bind fun e => ?_
  · split <;> rfl
  extract_lets m check
  have checked : ∀ r, KeepsViews (check r) := by
    refine fun _ => .ite .pure (KeepsViews.ask.bind fun _ => .ite .pure (.get_bind fun e => ?_))
    exact .of_lawful lawful_reportFor
  exact .ite ((KeepsViews.of_lawful lawful_reportFor).bind checked) (checked ())

theorem keepsViews_copyMethod {team : BindingId} : KeepsViews (copyMethod role team list m) := by
  refine .get_bind fun e => .ite .pure ?_
  refine (KeepsViews.of_lawful (.mapM lawful_rebindType)).bind fun params => ?_
  refine (KeepsViews.of_lawful (lawful_rebindType _)).bind fun ret => .get_bind fun e => ?_
  dsimp only
  split
  · exact .ite .pure (keepsViews_recordOverride.bind fun _ => .pure)
  · exact (keepsViews_newMethod rfl).bind fun _ => .pure

theorem keepsViews_copyMethods : KeepsViews (copyMethods role list) := by
  refine (KeepsViews.of_lawful lawful_teamOf).bind fun team => ?_
  refine (KeepsViews.of_lawful lawful_tsuperRoles).bind fun tsupers => .foldlM (fun _ _ => ?_) _
  exact KeepsViews.ask.bind fun _ => .foldlM (fun _ _ => keepsViews_copyMethod) _

theorem keepsViews_linkSurrogate {callin surrogate : MethodId} : KeepsViews (linkSurrogate callin surrogate) := by
  refine .bind ?_ fun _ => .get_bind fun e => ?_
  · exact keepsViews_updateMethod fun _ => rfl
  · exact keepsViews_updateMethod fun _ => rfl

theorem keepsViews_attachSurrogates : KeepsViews (attachSurrogates role list) := by
  refine .get_bind fun e => .foldlM (fun methods callin => .get_bind fun e => ?_) _
  split
  · exact keepsViews_linkSurrogate.bind fun _ => .pure
  · refine KeepsViews.bind (.get_bind fun _ => keepsViews_newMethod rfl) fun s => ?_
    exact keepsViews_linkSurrogate.bind fun _ => .pure

theorem keepsViews_methods : KeepsViews (methods b) := by
  refine (KeepsViews.of_lawful known_triple.lawful).bind fun x => ?_
  extract_lets finish attach complete
  have finished : ∀ list, KeepsViews (finish list) := fun _ => keepsViews_updateBinding.bind fun _ => .pure
  have attached : ∀ list, KeepsViews (attach list) := fun _ =>
    .ite (keepsViews_attachSurrogates.bind finished) (KeepsViews.pure.bind finished)
  have completed : ∀ list, KeepsViews (complete list) := fun _ =>
    .ite (keepsViews_copyMethods.bind attached) (KeepsViews.pure.bind attached)
  split
  · exact .pure
  · exact .get_bind fun _ => .throw
  · refine keepsViews_updateBinding.bind fun _ => ?_
    split
    · exact keepsViews_declaredMethods.bind completed
    · exact KeepsViews.bind (.filterMapM fun _ => keepsViews_compiledMethod) completed
    · exact KeepsViews.pure.bind completed

theorem keepsViews_updateInstance {f : InstanceMembers → InstanceMembers} : KeepsViews (updateInstance t f) :=
  keepsViews_elsewhere (fun _ => rfl) (fun _ => rfl) (fun _ => rfl) (fun _ => rfl) fun _ => rfl

theorem keepsViews_typeFields : KeepsViews (typeFields t) := by
  unfold typeFields
  split
  · split
    · exact .ask
    · exact .pure
  · refine (KeepsViews.of_lawful (lawful_substitutionFor _)).bind fun s => .get_bind fun e => ?_
    split
    · exact .pure
    · refine KeepsViews.ask.bind fun _ => ?_
      refine (KeepsViews.of_lawful (.mapM fun _ => lawful_instanceField)).bind fun _ => ?_
      exact keepsViews_updateInstance.bind fun _ => .pure

theorem keepsViews_instanceMethod {s : Substitution} : KeepsViews (instanceMethod s m) := by
  refine .get_bind fun e => (KeepsViews.of_lawful (.mapM fun _ => lawful_substitute)).bind fun params => ?_
  refine (KeepsViews.of_lawful lawful_substitute).bind fun ret => ?_
  refine (KeepsViews.of_lawful (.mapM fun _ => lawful_substitute)).bind fun exceptions => ?_
  exact keepsViews_newMethod rfl

theorem keepsViews_typeMethods : KeepsViews (typeMethods t) := by
  unfold typeMethods
  split
  · split
    · exact .ask
    · exact .pure
  · refine (KeepsViews.of_lawful (lawful_substitutionFor _)).bind fun s => .get_bind fun e => ?_
    split
    · exact .pure
    · refine KeepsViews.ask.bind fun _ => KeepsViews.bind (.mapM fun _ => keepsViews_instanceMethod) fun _ => ?_
      exact keepsViews_updateInstance.bind fun _ => .pure

theorem keepsViews_typeMemberTypes : KeepsViews (typeMemberTypes t) := by
  unfold typeMemberTypes
  split
  · refine .get_bind fun e => ?_
    split
    · exact .pure
    · exact (KeepsViews.of_lawful lawful_memberTypesWithin).bind fun _ =>
        keepsViews_updateInstance.bind fun _ => .pure
  · split
    · exact .of_lawful lawful_memberTypesWithin
    · exact .pure

theorem keepsViews_addMapping {m : Mapping} : KeepsViews (addMapping m) :=
  fun _ _ _ => .of_methods_eq rfl rfl (fun _ => id) (fun _ => id) rfl

theorem keepsViews_resolveCallin {base : BindingId} {decl : CallinDecl} {index : Nat} :
    KeepsViews (resolveCallin role base unit decl index) := by
  refine keepsViews_selectMethod.bind fun roleMethod => .get_bind fun e => ?_
  refine KeepsViews.bind (.optionForM fun m => ?_) fun _ => ?_
  · split
    · exact .of_lawful lawful_reportInUnit
    · exact .pure
  refine KeepsViews.bind (.filterMapM fun _ => keepsViews_selectMethod) fun found => ?_
  dsimp only
  split
  · exact .pure
  · refine KeepsViews.bind (.forM fun _ => .of_lawful lawful_checkCallinSignature) fun _ => .get_bind fun e => ?_
    refine .ite (KeepsViews.bind (.optionForM fun s => ?_) fun _ => .pure) .pure
    exact keepsViews_updateMethod fun _ => rfl

theorem keepsViews_resolveMethodCallout {base : BindingId} {decl : CalloutDecl} {roleMethod : Option MethodId} :
    KeepsViews (resolveMethodCallout role base unit decl roleMethod) := by
  refine keepsViews_selectMethod.bind fun found => ?_
  cases found with
  | none => exact .pure
  | some b =>
    refine .get_bind fun e => ?_
    extract_lets check
    have checked : ∀ r, KeepsViews (check r) := fun _ =>
      KeepsViews.bind (.optionForM fun _ => .of_lawful lawful_checkCalloutSignature) fun _ => .pure
    exact .ite (checked ()) ((KeepsViews.of_lawful lawful_reportInUnit).bind checked)

theorem keepsViews_resolveCallout {base : BindingId} {decl : CalloutDecl} {index : Nat} :
    KeepsViews (resolveCallout role base unit decl index) := by
  refine keepsViews_selectMethod.bind fun roleMethod => .get_bind fun e => ?_
  refine KeepsViews.bind (.optionForM fun m => .ite (.of_lawful lawful_reportInUnit) .pure) fun _ => ?_
  dsimp only
  split
  · exact keepsViews_resolveMethodCallout.bind fun _ => .pure
  · exact (KeepsViews.of_lawful lawful_resolveFieldCallout).bind fun _ => .pure
  · exact (KeepsViews.of_lawful lawful_resolveFieldCallout).bind fun _ => .pure

theorem keepsViews_declaredMappings {decl : TypeDecl} : KeepsViews (declaredMappings role decl unit) := by
  refine .ite .pure (KeepsViews.ask.bind fun declared => .get_bind fun e => .ite .pure ?_)
  split
  · exact (KeepsViews.of_lawful lawful_reportInUnit).bind fun _ => .pure
  · refine KeepsViews.bind (.mapM fun _ => keepsViews_resolveCallin.bind fun _ => keepsViews_addMapping) fun _ => ?_
    refine KeepsViews.bind (.mapM fun _ => ?_) fun _ => .pure
    exact keepsViews_resolveCallout.bind fun _ => keepsViews_addMapping

theorem keepsViews_recordedMethod {name signature : String} : KeepsViews (recordedMethod b name signature) :=
  keepsViews_findMethods.bind fun _ => .get_bind fun _ => .pure

theorem keepsViews_compiledCallin {base : Option BindingId} {record : Descriptor.CallinRecord} {index : Nat} :
    KeepsViews (compiledCallin role base record index) := by
  refine keepsViews_recordedMethod.bind fun roleMethod => ?_
  extract_lets finish
  have finished : ∀ baseMethods, KeepsViews (finish baseMethods) := fun _ =>
    .get_bind fun _ => keepsViews_addMapping
  split
  · exact KeepsViews.bind (.filterMapM fun _ => keepsViews_recordedMethod) finished
  · exact KeepsViews.pure.bind finished

theorem keepsViews_compiledCallout {base : Option BindingId} {record : Descriptor.CalloutRecord} {index : Nat} :
    KeepsViews (compiledCallout role base record index) := by
  refine keepsViews_recordedMethod.bind fun roleMethod => ?_
  extract_lets mapping
  split
  · exact keepsViews_addMapping
  · exact keepsViews_recordedMethod.bind fun _ => keepsViews_addMapping
  · exact (KeepsViews.of_lawful lawful_findField).bind fun _ => keepsViews_addMapping

theorem keepsViews_compiledMappings {d : Descriptor} : KeepsViews (compiledMappings role d) := by
  unfold compiledMappings
  split
  · exact .pure
  · refine KeepsViews.ask.bind fun _ => KeepsViews.bind (.mapM fun _ => keepsViews_compiledCallin) fun _ => ?_
    exact KeepsViews.bind (.mapM fun _ => keepsViews_compiledCallout) fun _ => .pure

theorem keepsViews_mappings : KeepsViews (mappings role) := by
  have set {slot : Slot (List MappingId)} : KeepsViews (setMappings role slot) :=
    keepsViews_elsewhere (fun _ => rfl) (fun _ => rfl) (fun _ => rfl) (fun _ => rfl) fun _ => rfl
  refine .get_bind fun e => ?_
  extract_lets finish
  have finished : ∀ list, KeepsViews (finish list) := fun _ => set.bind fun _ => .pure
  split
  · exact .pure
  · exact .get_bind fun _ => .throw
  · refine .ite (set.bind fun _ => ?_) .pure
    split
    · exact keepsViews_declaredMappings.bind finished
    · exact keepsViews_compiledMappings.bind finished
    · exact KeepsViews.pure.bind finished

theorem keepsViews_callins : KeepsViews (callins role) := keepsViews_mappings.bind fun _ => .get_bind fun _ => .pure

theorem keepsViews_precedenceEntries {team : BindingId} : KeepsViews (precedenceEntries team) := by
  refine (KeepsViews.of_lawful lawful_memberTypes).bind fun members => .get_bind fun e => .foldlM (fun _ role => ?_) _
  refine .get_bind fun e => keepsViews_callins.bind fun own => .get_bind fun e => ?_
  refine (KeepsViews.of_lawful lawful_tsuperRoles).bind fun inherited => .foldlM (fun _ tsuper => ?_) _
  exact keepsViews_callins.bind fun found => .get_bind fun e => .pure

theorem keepsViews_precedence {team : BindingId} : KeepsViews (precedence team) := by
  refine .get_bind fun e => ?_
  split
  · exact .pure
  · extract_lets finish
    have finished : ∀ table, KeepsViews (finish table) := by
      refine fun table => .bind ?_ fun _ => .pure
      exact keepsViews_elsewhere (fun _ => rfl) (fun _ => rfl) (fun _ => rfl) (fun _ => rfl) fun _ => rfl
    have ordered : KeepsViews (orderCallins team) := by
      refine keepsViews_precedenceEntries.bind fun _ => .of_lawful ?_
      refine .bind lawful_checkDuplicateLabels fun _ => ?_
      refine .bind lawful_precedenceDeclarations fun _ => .bind (.mapM fun _ => lawful_declaredEdges) fun _ => ?_
      refine .bind lawful_checkOppositeEdges fun _ => .bind lawful_checkOppositeEdges fun _ => ?_
      exact .bind .get fun _ => .foldlM (fun _ _ => .bind lawful_orderJoinPoint fun _ => .pure) _
    exact .ite ((ordered.bind fun _ => .pure).bind finished) (KeepsViews.pure.bind finished)

end TeamRoles.Resolve
