import TeamRoles.Proofs.Pairing.Generics

/-!
Mappings are resolved and ordered alike in both environments of a pair, where bounds in the methods they
name may be left for a later check.
-/

namespace TeamRoles

namespace TypeDecl

variable {decl : TypeDecl}

theorem mem_designators_callin {d : CallinDecl} {spec : MethodSpec} (h : d ∈ decl.callins)
    (hs : spec ∈ d.roleMethod :: d.baseMethods) : (spec, d.span) ∈ decl.designators :=
  List.mem_append_left _ (List.mem_flatMap.2 ⟨d, h, List.mem_map.2 ⟨spec, hs, rfl⟩⟩)

theorem mem_designators_callout {d : CalloutDecl} {spec : MethodSpec} (h : d ∈ decl.callouts)
    (hs : spec ∈ d.roleMethod :: if d.kind = .method then [d.base] else []) :
    (spec, d.span) ∈ decl.designators :=
  List.mem_append_right _ (List.mem_flatMap.2 ⟨d, h, List.mem_map.2 ⟨spec, hs, rfl⟩⟩)

end TypeDecl

namespace Resolve

variable {p : Pairing}

theorem keeps_selectMethod {owner : BindingId} {spec : MethodSpec} {site : Site}
    {selection : Selection} (queues : spec.params.isSome = true → p.Queues site.unit site.span) :
    Keeps p (selectMethod owner spec site selection) := by
  refine keeps_findMethods.bind fun all => .get_bind (fun _ _ => rfl) fun e _ => ?_
  extract_lets candidates shown choose
  have chosen : ∀ selected, Keeps p (choose selected) := by
    intro selected
    dsimp only [choose]
    split
    · exact .pure
    · exact keeps_reportInUnit.bind fun _ => .pure
    · exact keeps_reportInUnit.bind fun _ => .pure
  split
  · exact .bind .pure chosen
  · next specs written =>
    refine (keeps_typesOfSpecs (queues (by simp [written]))).bind fun _ => ?_
    exact .get_bind (fun _ _ => by simp) fun _ _ => .bind .pure chosen

theorem keeps_sourceViewSignature {m : MethodId} : Keeps p (sourceViewSignature m) := by
  rw [sourceViewSignature_eq]
  exact .get_bind (fun _ _ => rfl) fun _ _ => .pure

theorem keeps_checkCallinSignature {decl : CallinDecl} {unit : UnitId}
    {roleMethod baseMethod : MethodId} :
    Keeps p (checkCallinSignature decl unit roleMethod baseMethod) := by
  refine .bind keeps_sourceViewSignature fun role => .get_bind (fun _ _ => rfl) fun e _ => ?_
  extract_lets base report returned
  have reported {id : ProblemId} {detail : String} : Keeps p (report id detail) := keeps_reportInUnit
  have keeps_returned : ∀ fits, Keeps p (returned fits) := fun _ =>
    .ite .pure (.get_bind (fun _ _ => by rw [Env.typeName_under]) fun _ _ => reported)
  refine .bind (.forM fun param _ => ?_) fun _ => .ite ?_ .pure
  · split
    extract_lets passed
    have keeps_passed : ∀ fits, Keeps p (passed fits) := fun _ => .ite .pure reported
    split
    · exact keeps_canLift.bind keeps_passed
    · exact .bind .pure keeps_passed
  · exact .ite (.bind .pure keeps_returned) (keeps_canLower.bind keeps_returned)

theorem keeps_resolveCallin {role base : BindingId} {unit : UnitId} {decl : CallinDecl}
    {index : Nat} (queues : ∀ spec ∈ decl.roleMethod :: decl.baseMethods,
      spec.params.isSome = true → p.Queues unit decl.span) :
    Keeps p (resolveCallin role base unit decl index) := by
  obtain ⟨own, bases⟩ := List.forall_mem_cons.1 queues
  refine (keeps_selectMethod own).bind fun roleMethod => .get_bind (fun _ _ => rfl) fun e _ => ?_
  refine .bind (.optionForM fun m => ?_) fun _ => ?_
  · split
    · exact keeps_reportInUnit
    · exact .pure
  refine .bind (.filterMapM fun spec hs => keeps_selectMethod (bases spec hs)) fun found => ?_
  dsimp only
  split
  · exact .pure
  · refine .bind (.forM fun _ _ => keeps_checkCallinSignature) fun _ =>
      .get_bind (fun _ _ => rfl) fun _ _ => ?_
    exact .ite (.bind (.optionForM fun _ => keeps_updateMethod) fun _ => .pure) .pure

theorem keeps_checkCalloutSignature {decl : CalloutDecl} {unit : UnitId}
    {roleMethod baseMethod : MethodId} :
    Keeps p (checkCalloutSignature decl unit roleMethod baseMethod) := by
  refine .bind keeps_sourceViewSignature fun role => .get_bind (fun _ _ => rfl) fun e _ => ?_
  extract_lets base report supplied returned finish
  have reported {id : ProblemId} {detail : String} : Keeps p (report id detail) := keeps_reportInUnit
  have keeps_returned : ∀ fits, Keeps p (returned fits) := fun _ =>
    .ite .pure (.get_bind (fun _ _ => by rw [Env.typeName_under]) fun _ _ => reported)
  have keeps_finish : ∀ r, Keeps p (finish r) := fun _ =>
    .ite (.ite (.bind .pure keeps_returned) (keeps_canLift.bind keeps_returned)) .pure
  refine .bind (.forM fun param _ => ?_) fun _ => ?_
  · split
    extract_lets passed
    have keeps_passed : ∀ fits, Keeps p (passed fits) := fun _ => .ite .pure reported
    split
    · exact keeps_canLower.bind keeps_passed
    · exact .bind .pure keeps_passed
  · split
    · exact reported.bind keeps_finish
    · exact keeps_finish ()

theorem keeps_fitsField {kind : CalloutKind} {role : MethodType} {field : Ty} :
    Keeps p (fitsField kind role field) := by
  unfold fitsField
  split
  · exact .ite .pure keeps_canLift
  · exact keeps_canLower
  · exact .pure

theorem keeps_resolveFieldCallout {role base : BindingId} {unit : UnitId} {decl : CalloutDecl}
    {roleMethod : Option MethodId} :
    Keeps p (resolveFieldCallout role base unit decl roleMethod) := by
  unfold resolveFieldCallout
  extract_lets report access
  have reported {id : ProblemId} {arguments : List String} : Keeps p (report id arguments) :=
    keeps_reportInUnit
  have keeps_access : ∀ r, Keeps p (access r) := by
    refine fun _ => keeps_findField.bind fun found => ?_
    cases found with
    | none => exact .get_bind (fun _ _ => rfl) fun _ _ => reported.bind fun _ => .pure
    | some f =>
      refine Keeps.ask.bind fun type => .get_bind (fun _ _ => by simp) fun e _ => ?_
      extract_lets field fit check
      have keeps_fit : ∀ r, Keeps p (fit r) := by
        refine fun _ => .bind (.optionForM fun m => ?_) fun _ => .pure
        refine keeps_sourceViewSignature.bind fun _ => keeps_fitsField.bind fun _ => .ite .pure ?_
        exact .get_bind (fun _ _ => by simp) fun _ _ => reported
      have keeps_check : ∀ r, Keeps p (check r) := fun _ =>
        .ite (reported.bind keeps_fit) (keeps_fit ())
      exact .ite (keeps_check ()) (reported.bind keeps_check)
  exact .ite (keeps_access ()) (reported.bind keeps_access)

theorem keeps_resolveMethodCallout {role base : BindingId} {unit : UnitId} {decl : CalloutDecl}
    {roleMethod : Option MethodId}
    (queues : decl.base.params.isSome = true → p.Queues unit decl.span) :
    Keeps p (resolveMethodCallout role base unit decl roleMethod) := by
  refine (keeps_selectMethod queues).bind fun found => ?_
  cases found with
  | none => exact .pure
  | some b =>
    refine .get_bind (fun _ _ => by simp) fun e _ => ?_
    extract_lets check
    have checked : ∀ r, Keeps p (check r) := fun _ =>
      .bind (.optionForM fun _ => keeps_checkCalloutSignature) fun _ => .pure
    exact .ite (checked ()) (keeps_reportInUnit.bind checked)

theorem keeps_resolveCallout {role base : BindingId} {unit : UnitId} {decl : CalloutDecl}
    {index : Nat}
    (queues : ∀ spec ∈ decl.roleMethod :: if decl.kind = .method then [decl.base] else [],
      spec.params.isSome = true → p.Queues unit decl.span) :
    Keeps p (resolveCallout role base unit decl index) := by
  obtain ⟨own, bases⟩ := List.forall_mem_cons.1 queues
  refine (keeps_selectMethod own).bind fun roleMethod => .get_bind (fun _ _ => rfl) fun e _ => ?_
  refine .bind (.optionForM fun m => .ite keeps_reportInUnit .pure) fun _ => ?_
  dsimp only
  split
  · next kind =>
    refine (keeps_resolveMethodCallout (bases decl.base ?_)).bind fun _ => .pure
    simp [kind]
  · exact keeps_resolveFieldCallout.bind fun _ => .pure
  · exact keeps_resolveFieldCallout.bind fun _ => .pure

theorem keeps_setMappings {role : BindingId} {slot : Slot (List MappingId)} :
    Keeps p (setMappings role slot) :=
  keeps_apart (fun _ _ => rfl) fun _ => rfl

theorem keeps_declaredMappings {role : BindingId} {decl : TypeDecl} {unit : UnitId}
    (queues : ∀ spec span, (spec, span) ∈ decl.designators → spec.params.isSome = true →
      p.Queues unit span) : Keeps p (declaredMappings role decl unit) := by
  refine .ite .pure (Keeps.ask.bind fun declared => ?_)
  refine .get_bind (fun _ _ => rfl) fun e _ => .ite .pure ?_
  split
  · exact keeps_reportInUnit.bind fun _ => .pure
  · refine .bind (.mapM fun entry he => .bind (keeps_resolveCallin fun spec hs => ?_)
      fun _ => keeps_addMapping) fun callins => ?_
    · exact queues spec _ (TypeDecl.mem_designators_callin (List.fst_mem_of_mem_zipIdx he) hs)
    refine .bind (.mapM fun entry he => .bind (keeps_resolveCallout fun spec hs => ?_)
      fun _ => keeps_addMapping) fun callouts => .pure
    exact queues spec _ (TypeDecl.mem_designators_callout (List.fst_mem_of_mem_zipIdx he) hs)

theorem keeps_recordedMethod {owner : BindingId} {name signature : String} :
    Keeps p (recordedMethod owner name signature) :=
  keeps_findMethods.bind fun _ => .get_bind (fun _ _ => rfl) fun _ _ => .pure

theorem keeps_compiledCallin {role : BindingId} {base : Option BindingId}
    {record : Descriptor.CallinRecord} {index : Nat} :
    Keeps p (compiledCallin role base record index) := by
  refine keeps_recordedMethod.bind fun roleMethod => ?_
  extract_lets finish
  have finished : ∀ baseMethods, Keeps p (finish baseMethods) := fun _ =>
    .get_bind (fun _ _ => rfl) fun _ _ => keeps_addMapping
  split
  · exact .bind (.filterMapM fun _ _ => keeps_recordedMethod) finished
  · exact .bind .pure finished

theorem keeps_compiledCallout {role : BindingId} {base : Option BindingId}
    {record : Descriptor.CalloutRecord} {index : Nat} :
    Keeps p (compiledCallout role base record index) := by
  refine keeps_recordedMethod.bind fun roleMethod => ?_
  extract_lets mapping
  split
  · exact keeps_addMapping
  · exact keeps_recordedMethod.bind fun _ => keeps_addMapping
  · exact keeps_findField.bind fun _ => keeps_addMapping

theorem keeps_compiledMappings {role : BindingId} {d : Descriptor} :
    Keeps p (compiledMappings role d) := by
  unfold compiledMappings
  split
  · exact .pure
  · refine Keeps.ask.bind fun _ => .bind (.mapM fun _ _ => keeps_compiledCallin) fun callins => ?_
    exact .bind (.mapM fun _ _ => keeps_compiledCallout) fun callouts => .pure

theorem keeps_mappings {role : BindingId} : Keeps p (mappings role) := by
  refine .get_bind (fun _ _ => rfl) fun e holds => ?_
  extract_lets finish
  have finished : ∀ list, Keeps p (finish list) := fun _ => keeps_setMappings.bind fun _ => .pure
  split
  · exact .pure
  · exact keeps_reentrant
  · refine .ite (keeps_setMappings.bind fun _ => ?_) .pure
    split
    · next origin =>
      obtain ⟨e', pairs⟩ := holds
      exact .bind (keeps_declaredMappings fun _ _ => p.designator pairs origin) finished
    · exact keeps_compiledMappings.bind finished
    · exact .bind .pure finished

theorem keeps_callins {role : BindingId} : Keeps p (callins role) :=
  keeps_mappings.bind fun _ => .get_bind (fun _ _ => rfl) fun _ _ => .pure

theorem keeps_checkBaseCalls {m : MethodId} : Keeps p (checkBaseCalls m) :=
  .get_bind (fun _ _ => rfl) fun _ _ => .forM fun _ _ => keeps_reportFor

open Precedence

theorem keeps_reportIncompatible {team : BindingId} {span : Span}
    {pair : MappingId × MappingId} : Keeps p (reportIncompatible team span pair) :=
  .get_bind (fun _ _ => rfl) fun _ _ => keeps_reportFor

theorem keeps_entriesOf {entries : List Entry} {role : BindingId} :
    Keeps p (entriesOf entries role) := by
  refine .get_bind (fun _ _ => rfl) fun e _ => keeps_callins.bind fun own =>
    .get_bind (fun _ _ => rfl) fun _ _ => ?_
  refine keeps_tsuperRoles.bind fun inherited => .foldlM (fun entries tsuper _ => ?_) _
  exact keeps_callins.bind fun _ => .get_bind (fun _ _ => rfl) fun _ _ => .pure

theorem keeps_precedenceEntries {team : BindingId} : Keeps p (precedenceEntries team) :=
  keeps_memberTypes.bind fun _ => .get_bind (fun _ _ => rfl) fun _ _ =>
    .foldlM (fun _ _ _ => keeps_entriesOf) _

theorem keeps_checkDuplicateLabels {entries : List Entry} : Keeps p (checkDuplicateLabels entries) := by
  refine .get_bind (fun _ _ => rfl) fun e _ => .discard (.foldlM (fun seen entry _ => ?_) _)
  exact .ite (keeps_reportFor.bind fun _ => .pure) .pure

theorem keeps_precedenceDeclarations {team : BindingId} :
    Keeps p (precedenceDeclarations team) :=
  keeps_superTeams fun _ _ => .get_bind (fun _ _ => rfl) fun _ _ => .pure

theorem keeps_declaredEdges {team : BindingId} {entries : List Entry} {declared : Declared} :
    Keeps p (declaredEdges team entries declared) := by
  refine .bind (.mapM fun element _ => ?_) fun _ => .pure
  exact .ite (keeps_reportFor.bind fun _ => .pure) .pure

theorem keeps_checkOppositeEdges {team : BindingId} {edges : List Edge} {reported : Reported} :
    Keeps p (checkOppositeEdges team edges reported) :=
  .foldlM (fun _ _ _ => .ite (keeps_reportIncompatible.bind fun _ => .pure) .pure) _

theorem keeps_checkLeftover {team : BindingId} {left : List MappingId} {reported : Reported} :
    Keeps p (checkLeftover team left reported) := by
  unfold checkLeftover
  split
  · refine .ite .pure (.get_bind (fun _ _ => rfl) fun _ _ => ?_)
    exact keeps_reportIncompatible.bind fun _ => .pure
  · exact .pure

theorem keeps_orderJoinPoint {team : BindingId} {entries : List Entry} {edges : List Edge}
    {point : JoinPoint} {reported : Reported} :
    Keeps p (orderJoinPoint team entries edges point reported) := by
  refine .get_bind (fun _ _ => rfl) fun e _ => .bind (.forM fun _ _ => keeps_reportFor) fun _ => ?_
  split
  · exact .throw
  · exact keeps_checkLeftover.bind fun _ => .pure

theorem keeps_orderCallins {team : BindingId} : Keeps p (orderCallins team) := by
  refine keeps_precedenceEntries.bind fun _ => keeps_checkDuplicateLabels.bind fun _ => ?_
  refine keeps_precedenceDeclarations.bind fun _ => .bind (.mapM fun _ _ => keeps_declaredEdges)
    fun _ => ?_
  refine keeps_checkOppositeEdges.bind fun _ => keeps_checkOppositeEdges.bind fun _ => ?_
  refine .get_bind (fun _ _ => rfl) fun _ _ => .foldlM (fun _ _ _ => ?_) _
  exact keeps_orderJoinPoint.bind fun _ => .pure

theorem keeps_computePrecedence {team : BindingId} : Keeps p (computePrecedence team) :=
  keeps_orderCallins.bind fun _ => .pure

theorem keeps_precedence {team : BindingId} : Keeps p (precedence team) := by
  refine .get_bind (fun _ _ => rfl) fun e _ => ?_
  split
  · exact .pure
  · extract_lets finish
    have finished : ∀ table, Keeps p (finish table) := fun _ =>
      .bind (keeps_apart (fun _ _ => rfl) fun _ => rfl) fun _ => .pure
    exact .ite (keeps_computePrecedence.bind finished) (.bind .pure finished)

end Resolve

end TeamRoles
