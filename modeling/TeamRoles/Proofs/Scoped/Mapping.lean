import TeamRoles.Proofs.Lawful.Mapping
import TeamRoles.Proofs.Scoped.Generics

/-!
Method mappings and their order keep everything in scope.
-/

namespace TeamRoles.Resolve

variable {e : Env}

theorem selectMethod_from {owner : BindingId} {spec : MethodSpec} {site : Site} {selection : Selection}
    (fits : site.Fits e) : From e (selectMethod owner spec site selection) fun _ _ => True := by
  refine .after calm_findMethods fun all d le => .get_bind fun c hc => ?_
  extract_lets candidates shown choose
  have chosen (selected : List MethodId) : Calm (choose selected) := by
    dsimp only [choose]
    split
    · exact .pure
    · exact .bind calm_reportInUnit fun _ => .pure
    · exact .bind calm_reportInUnit fun _ => .pure
  split
  · exact Calm.bind .pure chosen c
  · refine (typesOfSpecs_from (fits.mono (le.trans hc))).bind fun _ c _ _ => ?_
    exact (Calm.bind .get fun _ => .bind .pure chosen) c

theorem body_from {role : BindingId} {unit : UnitId} {span : Span} {owner : BindingId} {spec : MethodSpec}
    {selection : Selection} {baseContext : Bool} (inside : e.HasType role) :
    From e (selectMethod owner spec { Site.body role unit span with baseContext } selection) fun _ _ => True :=
  selectMethod_from ⟨fun _ same => Option.mem_some.1 same ▸ inside, nofun⟩

theorem calm_sourceViewSignature {m : MethodId} : Calm (sourceViewSignature m) := by
  rw [sourceViewSignature_eq]
  exact .bind .get fun _ => .pure

theorem calm_checkCallinSignature {decl : CallinDecl} {unit : UnitId} {roleMethod baseMethod : MethodId} :
    Calm (checkCallinSignature decl unit roleMethod baseMethod) := by
  refine .bind calm_sourceViewSignature fun role => .bind .get fun e => ?_
  extract_lets base report returned
  have reported {p : ProblemId} {detail : String} : Calm (report p detail) := calm_reportInUnit
  have calm_returned (fits : Bool) : Calm (returned fits) := .ite .pure (.bind .get fun _ => reported)
  refine .bind (.forM fun param => ?_) fun _ => .ite ?_ .pure
  · split
    extract_lets passed
    have calm_passed (fits : Bool) : Calm (passed fits) := .ite .pure reported
    split
    · exact .bind calm_canLift calm_passed
    · exact .bind .pure calm_passed
  · exact .ite (.bind .pure calm_returned) (.bind calm_canLower calm_returned)

theorem resolveCallin_from {role base : BindingId} {unit : UnitId} {decl : CallinDecl} {index : Nat}
    (inside : e.HasType role) : From e (resolveCallin role base unit decl index) fun _ _ => True := by
  refine (body_from inside).bind fun roleMethod d le _ => .get_bind fun d' le' => ?_
  refine .after (.optionForM fun m => ?_) fun _ c hc => ?_
  · split
    · exact calm_reportInUnit
    · exact .pure
  have inside := (le.trans (le'.trans hc)).hasType inside
  refine From.bind (Q := fun _ _ => True) (From.quietly (.filterMapM (Q := fun _ _ => True) (fun spec _ => ?_)
    fun _ _ _ _ => id)) fun found c _ _ => ?_
  · exact (body_from inside).post fun _ _ _ _ _ _ => trivial
  · dsimp only
    split
    · exact Calm.pure c
    · refine (Calm.bind (.forM fun _ => calm_checkCallinSignature) fun _ => .bind .get fun _ => .ite ?_ .pure) c
      refine .bind (.optionForM fun _ => calm_updateMethod fun _ => rfl) fun _ => .pure

theorem calm_checkCalloutSignature {decl : CalloutDecl} {unit : UnitId} {roleMethod baseMethod : MethodId} :
    Calm (checkCalloutSignature decl unit roleMethod baseMethod) := by
  refine .bind calm_sourceViewSignature fun role => .bind .get fun e => ?_
  extract_lets base report supplied returned finish
  have reported {p : ProblemId} {detail : String} : Calm (report p detail) := calm_reportInUnit
  have calm_returned (fits : Bool) : Calm (returned fits) := .ite .pure (.bind .get fun _ => reported)
  have calm_finish (r : PUnit) : Calm (finish r) :=
    .ite (.ite (.bind .pure calm_returned) (.bind calm_canLift calm_returned)) .pure
  refine .bind (.forM fun param => ?_) fun _ => ?_
  · split
    extract_lets passed
    have calm_passed (fits : Bool) : Calm (passed fits) := .ite .pure reported
    split
    · exact .bind calm_canLower calm_passed
    · exact .bind .pure calm_passed
  · split
    · exact .bind reported calm_finish
    · exact calm_finish ()

theorem calm_fitsField {kind : CalloutKind} {role : MethodType} {field : Ty} : Calm (fitsField kind role field) := by
  unfold fitsField
  split
  · exact .ite .pure calm_canLift
  · exact calm_canLower
  · exact .pure

theorem calm_resolveFieldCallout {role base : BindingId} {unit : UnitId} {decl : CalloutDecl}
    {roleMethod : Option MethodId} : Calm (resolveFieldCallout role base unit decl roleMethod) := by
  unfold resolveFieldCallout
  extract_lets report access
  have reported {p : ProblemId} {arguments : List String} : Calm (report p arguments) := calm_reportInUnit
  have calm_access (r : PUnit) : Calm (access r) := by
    refine .bind calm_findField fun found => ?_
    cases found with
    | none => exact .bind .get fun _ => .bind reported fun _ => .pure
    | some f =>
      refine .bind (.ask _) fun type => .bind .get fun e => ?_
      extract_lets field fit check
      have calm_fit (r : PUnit) : Calm (fit r) := by
        refine .bind (.optionForM fun m => ?_) fun _ => .pure
        exact .bind calm_sourceViewSignature fun _ =>
          .bind calm_fitsField fun _ => .ite .pure (.bind .get fun _ => reported)
      have calm_check (r : PUnit) : Calm (check r) := .ite (.bind reported calm_fit) (calm_fit ())
      exact .ite (calm_check ()) (.bind reported calm_check)
  exact .ite (calm_access ()) (.bind reported calm_access)

theorem resolveMethodCallout_from {role base : BindingId} {unit : UnitId} {decl : CalloutDecl}
    {roleMethod : Option MethodId} (inside : e.HasType role) :
    From e (resolveMethodCallout role base unit decl roleMethod) fun _ _ => True := by
  refine (body_from inside).bind fun found d _ _ => ?_
  cases found with
  | none => exact Calm.pure d
  | some b =>
    refine Calm.bind .get (fun e => ?_) d
    extract_lets check
    have checked (r : PUnit) : Calm (check r) :=
      .bind (.optionForM fun _ => calm_checkCalloutSignature) fun _ => .pure
    exact .ite (checked ()) (.bind calm_reportInUnit checked)

theorem resolveCallout_from {role base : BindingId} {unit : UnitId} {decl : CalloutDecl} {index : Nat}
    (inside : e.HasType role) : From e (resolveCallout role base unit decl index) fun _ _ => True := by
  refine (body_from inside).bind fun roleMethod d le _ => .get_bind fun d' le' => ?_
  refine .after (.optionForM fun m => .ite calm_reportInUnit .pure) fun _ c hc => ?_
  have inside := (le.trans (le'.trans hc)).hasType inside
  dsimp only
  split
  · exact (resolveMethodCallout_from inside).bind fun _ c _ _ => Calm.pure c
  · exact .after calm_resolveFieldCallout fun _ c _ => Calm.pure c
  · exact .after calm_resolveFieldCallout fun _ c _ => Calm.pure c

section Mappings

variable {role : BindingId}

theorem addMappings_from {α : Type} {l : List α} {f : α → Resolve Mapping}
    (hf : ∀ a d, e.Develops d → From d (f a) fun _ _ => True) :
    From e (l.mapM fun a => do addMapping (← f a)) fun _ _ => True := by
  refine From.quietly (From.mapM (Q := fun _ _ => True) (fun a _ => .start fun d le => ?_) fun _ _ _ _ => id)
  exact (hf a d le).bind fun _ c _ _ => calm_addMapping c

theorem declaredMappings_from {decl : TypeDecl} {unit : UnitId} (inside : e.HasType role) :
    From e (declaredMappings role decl unit) fun _ _ => True := by
  refine .ite (fun _ => Calm.pure e) fun _ => .after (.ask _) fun declared d le => .get_bind fun d' le' => ?_
  have inside := (le.trans le').hasType inside
  refine .ite (fun _ => Calm.pure d') fun _ => ?_
  split
  · exact (Calm.bind calm_reportInUnit fun _ => .pure) d'
  · refine (addMappings_from fun _ c hc => resolveCallin_from (hc.hasType inside)).bind fun _ c hc _ => ?_
    refine (addMappings_from fun _ c' hc' => ?_).bind fun _ c _ _ => Calm.pure c
    exact resolveCallout_from ((hc.trans hc').hasType inside)

theorem calm_recordedMethod {owner : BindingId} {name signature : String} :
    Calm (recordedMethod owner name signature) :=
  .bind calm_findMethods fun _ => .bind .get fun _ => .pure

theorem calm_compiledCallin {base : Option BindingId} {record : Descriptor.CallinRecord} {index : Nat} :
    Calm (compiledCallin role base record index) := by
  refine .bind calm_recordedMethod fun roleMethod => ?_
  extract_lets finish
  have finished (baseMethods : List MethodId) : Calm (finish baseMethods) := .bind .get fun _ => calm_addMapping
  split
  · exact .bind (.filterMapM fun _ => calm_recordedMethod) finished
  · exact .bind .pure finished

theorem calm_compiledCallout {base : Option BindingId} {record : Descriptor.CalloutRecord} {index : Nat} :
    Calm (compiledCallout role base record index) := by
  refine .bind calm_recordedMethod fun roleMethod => ?_
  extract_lets mapping
  split
  · exact calm_addMapping
  · exact .bind calm_recordedMethod fun _ => calm_addMapping
  · exact .bind calm_findField fun _ => calm_addMapping

theorem calm_compiledMappings {d : Descriptor} : Calm (compiledMappings role d) := by
  unfold compiledMappings
  split
  · exact .pure
  · refine .bind (.ask _) fun _ => .bind (.mapM fun _ => calm_compiledCallin) fun _ => ?_
    exact .bind (.mapM fun _ => calm_compiledCallout) fun _ => .pure

theorem calm_setMappings {slot : Slot (List MappingId)} : Calm (setMappings role slot) := .quiet fun _ => rfl

theorem calm_mappings : Calm (mappings role) := by
  refine From.calm (Q := fun _ _ => True) fun e => .get_bind fun d _ => ?_
  extract_lets finish
  have finished (list : List MappingId) : Calm (finish list) := .bind calm_setMappings fun _ => .pure
  split
  · exact Calm.pure d
  · exact reentrant_from
  · refine .ite (fun isRole => .after calm_setMappings fun _ c hc => ?_) fun _ => Calm.pure d
    have inside : c.HasType role := hc.hasType (Env.lt_size_of_isRole isRole)
    split
    · exact (declaredMappings_from inside).bind fun list c _ _ => finished list c
    · exact (Calm.bind calm_compiledMappings finished) c
    · exact (Calm.bind .pure finished) c

end Mappings

theorem calm_callins {role : BindingId} : Calm (callins role) :=
  .bind calm_mappings fun _ => .bind .get fun _ => .pure

theorem calm_checkBaseCalls {m : MethodId} : Calm (checkBaseCalls m) :=
  .bind .get fun _ => .forM fun _ => calm_reportFor

open Precedence

theorem calm_reportIncompatible {team : BindingId} {span : Span} {pair : MappingId × MappingId} :
    Calm (reportIncompatible team span pair) :=
  .bind .get fun _ => calm_reportFor

theorem calm_entriesOf {entries : List Entry} {role : BindingId} : Calm (entriesOf entries role) := by
  refine .bind .get fun _ => .bind calm_callins fun _ => .bind .get fun _ => ?_
  refine .bind calm_tsuperRoles fun _ => .foldlM (fun _ _ => ?_) _
  exact .bind calm_callins fun _ => .bind .get fun _ => .pure

theorem calm_precedenceEntries {team : BindingId} : Calm (precedenceEntries team) :=
  .bind calm_memberTypes fun _ => .bind .get fun _ => .foldlM (fun _ _ => calm_entriesOf) _

theorem calm_checkDuplicateLabels {entries : List Entry} : Calm (checkDuplicateLabels entries) := by
  refine .bind .get fun e => .discard (.foldlM (fun seen entry => ?_) _)
  exact .ite (.bind calm_reportFor fun _ => .pure) .pure

theorem calm_precedenceDeclarations {team : BindingId} : Calm (precedenceDeclarations team) :=
  calm_superTeams fun _ _ => .bind .get fun _ => .pure

theorem calm_declaredEdges {team : BindingId} {entries : List Entry} {declared : Declared} :
    Calm (declaredEdges team entries declared) := by
  refine .bind (.mapM fun element => ?_) fun _ => .pure
  exact .ite (.bind calm_reportFor fun _ => .pure) .pure

theorem calm_checkOppositeEdges {team : BindingId} {edges : List Edge} {reported : Reported} :
    Calm (checkOppositeEdges team edges reported) :=
  .foldlM (fun _ _ => .ite (.bind calm_reportIncompatible fun _ => .pure) .pure) _

theorem calm_checkLeftover {team : BindingId} {left : List MappingId} {reported : Reported} :
    Calm (checkLeftover team left reported) := by
  unfold checkLeftover
  split
  · refine .ite .pure (.bind .get fun _ => ?_)
    exact .bind calm_reportIncompatible fun _ => .pure
  · exact .pure

theorem calm_orderJoinPoint {team : BindingId} {entries : List Entry} {edges : List Edge} {point : JoinPoint}
    {reported : Reported} : Calm (orderJoinPoint team entries edges point reported) := by
  refine .bind .get fun _ => .bind (.forM fun _ => calm_reportFor) fun _ => ?_
  split
  · exact .throw
  · exact .bind calm_checkLeftover fun _ => .pure

theorem calm_orderCallins {team : BindingId} : Calm (orderCallins team) := by
  refine .bind calm_precedenceEntries fun _ => .bind calm_checkDuplicateLabels fun _ => ?_
  refine .bind calm_precedenceDeclarations fun _ => .bind (.mapM fun _ => calm_declaredEdges) fun _ => ?_
  refine .bind calm_checkOppositeEdges fun _ => .bind calm_checkOppositeEdges fun _ => ?_
  refine .bind .get fun _ => .foldlM (fun _ _ => ?_) _
  exact .bind calm_orderJoinPoint fun _ => .pure

theorem calm_precedence {team : BindingId} : Calm (precedence team) := by
  refine .bind .get fun e => ?_
  split
  · exact .pure
  · extract_lets finish
    have finished (table : PrecedenceTable) : Calm (finish table) := by
      refine .bind (.quiet ?_) fun _ => .pure
      exact fun _ => rfl
    exact .ite (.bind (.bind calm_orderCallins fun _ => .pure) finished) (.bind .pure finished)

end TeamRoles.Resolve
