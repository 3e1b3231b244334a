import TeamRoles.Precedence.Basic
import TeamRoles.Proofs.Env.Views
import TeamRoles.Proofs.Lawful.Generics

/-!
Method mappings are resolved and ordered lawfully.
-/

namespace TeamRoles.Resolve

variable {ℓ : Nat}

theorem lawful_selectMethod {owner : BindingId} {spec : MethodSpec} {site : Site}
    {selection : Selection} : Lawful (ℓ + 5) (selectMethod owner spec site selection) := by
  refine .bind lawful_findMethods fun all => .bind .get fun e => ?_
  extract_lets candidates shown choose
  have chosen : ∀ selected, Lawful (ℓ + 5) (choose selected) := by
    intro selected
    dsimp only [choose]
    split
    · exact .pure
    · exact .bind lawful_reportInUnit fun _ => .pure
    · exact .bind lawful_reportInUnit fun _ => .pure
  split
  · exact .bind .pure chosen
  · exact .bind lawful_typesOfSpecs fun _ => .bind .get fun _ => .bind .pure chosen

theorem lawful_sourceViewSignature {m : MethodId} : Lawful ℓ (sourceViewSignature m) := by
  rw [sourceViewSignature_eq]
  exact .bind .get fun _ => .pure

theorem lawful_checkCallinSignature {decl : CallinDecl} {unit : UnitId}
    {roleMethod baseMethod : MethodId} :
    Lawful (ℓ + 3) (checkCallinSignature decl unit roleMethod baseMethod) := by
  refine .bind lawful_sourceViewSignature fun role => .bind .get fun e => ?_
  extract_lets base report returned
  have reported {p : ProblemId} {detail : String} : Lawful (ℓ + 3) (report p detail) := lawful_reportInUnit
  have lawful_returned : ∀ fits, Lawful (ℓ + 3) (returned fits) := fun _ =>
    .ite .pure (.bind .get fun _ => reported)
  refine .bind (.forM fun param => ?_) fun _ => .ite ?_ .pure
  · split
    extract_lets passed
    have lawful_passed : ∀ fits, Lawful (ℓ + 3) (passed fits) := fun _ => .ite .pure reported
    split
    · exact .bind lawful_canLift lawful_passed
    · exact .bind .pure lawful_passed
  · exact .ite (.bind .pure lawful_returned) (.bind lawful_canLower lawful_returned)

theorem resolveCallin_triple {role base : BindingId} {unit : UnitId} {decl : CallinDecl}
    {index : Nat} : Triple (ℓ + 5) (fun _ => True) (resolveCallin role base unit decl index)
      fun mapping _ => mapping.role = role := by
  refine Lawful.before lawful_selectMethod fun roleMethod => Lawful.get.before fun e => ?_
  refine Lawful.before (.optionForM fun m => ?_) fun _ => ?_
  · split
    · exact lawful_reportInUnit
    · exact .pure
  refine (Lawful.filterMapM fun _ => lawful_selectMethod).before fun found => ?_
  dsimp only
  split
  · exact .pure fun _ _ => rfl
  · refine (Lawful.forM fun _ => lawful_checkCallinSignature).before fun _ =>
      Lawful.get.before fun _ => .ite ?_ (.pure fun _ _ => rfl)
    refine Lawful.before (.optionForM fun _ => lawful_updateMethod fun _ => rfl) fun _ => ?_
    exact .pure fun _ _ => rfl

theorem lawful_checkCalloutSignature {decl : CalloutDecl} {unit : UnitId}
    {roleMethod baseMethod : MethodId} :
    Lawful (ℓ + 3) (checkCalloutSignature decl unit roleMethod baseMethod) := by
  refine .bind lawful_sourceViewSignature fun role => .bind .get fun e => ?_
  extract_lets base report supplied returned finish
  have reported {p : ProblemId} {detail : String} : Lawful (ℓ + 3) (report p detail) := lawful_reportInUnit
  have lawful_returned : ∀ fits, Lawful (ℓ + 3) (returned fits) := fun _ =>
    .ite .pure (.bind .get fun _ => reported)
  have lawful_finish : ∀ r, Lawful (ℓ + 3) (finish r) := fun _ =>
    .ite (.ite (.bind .pure lawful_returned) (.bind lawful_canLift lawful_returned)) .pure
  refine .bind (.forM fun param => ?_) fun _ => ?_
  · split
    extract_lets passed
    have lawful_passed : ∀ fits, Lawful (ℓ + 3) (passed fits) := fun _ => .ite .pure reported
    split
    · exact .bind lawful_canLower lawful_passed
    · exact .bind .pure lawful_passed
  · split
    · exact reported.bind lawful_finish
    · exact lawful_finish ()

theorem lawful_fitsField {kind : CalloutKind} {role : MethodType} {field : Ty} :
    Lawful (ℓ + 3) (fitsField kind role field) := by
  unfold fitsField
  split
  · exact .ite .pure lawful_canLift
  · exact lawful_canLower
  · exact .pure

theorem lawful_resolveFieldCallout {role base : BindingId} {unit : UnitId} {decl : CalloutDecl}
    {roleMethod : Option MethodId} :
    Lawful (ℓ + 4) (resolveFieldCallout role base unit decl roleMethod) := by
  unfold resolveFieldCallout
  extract_lets report access
  have reported {p : ProblemId} {arguments : List String} : Lawful (ℓ + 4) (report p arguments) :=
    lawful_reportInUnit
  have lawful_access : ∀ r, Lawful (ℓ + 4) (access r) := by
    refine fun _ => .bind lawful_findField fun found => ?_
    cases found with
    | none => exact .bind .get fun _ => reported.bind fun _ => .pure
    | some f =>
      refine (Lawful.ask _ (by simp)).bind fun type => .bind .get fun e => ?_
      extract_lets field fit check
      have lawful_fit : ∀ r, Lawful (ℓ + 4) (fit r) := by
        refine fun _ => .bind (.optionForM fun m => ?_) fun _ => .pure
        exact .bind lawful_sourceViewSignature fun _ =>
          .bind lawful_fitsField fun _ => .ite .pure (.bind .get fun _ => reported)
      have lawful_check : ∀ r, Lawful (ℓ + 4) (check r) := fun _ =>
        .ite (reported.bind lawful_fit) (lawful_fit ())
      exact .ite (lawful_check ()) (reported.bind lawful_check)
  exact .ite (lawful_access ()) (reported.bind lawful_access)

theorem lawful_resolveMethodCallout {role base : BindingId} {unit : UnitId} {decl : CalloutDecl}
    {roleMethod : Option MethodId} :
    Lawful (ℓ + 5) (resolveMethodCallout role base unit decl roleMethod) := by
  refine .bind lawful_selectMethod fun found => ?_
  cases found with
  | none => exact .pure
  | some b =>
    refine .bind .get fun e => ?_
    extract_lets check
    have checked : ∀ r, Lawful (ℓ + 5) (check r) := fun _ =>
      .bind (.optionForM fun _ => lawful_checkCalloutSignature) fun _ => .pure
    exact .ite (checked ()) (.bind lawful_reportInUnit checked)

theorem resolveCallout_triple {role base : BindingId} {unit : UnitId} {decl : CalloutDecl}
    {index : Nat} : Triple (ℓ + 5) (fun _ => True) (resolveCallout role base unit decl index)
      fun mapping _ => mapping.role = role := by
  refine Lawful.before lawful_selectMethod fun roleMethod => Lawful.get.before fun e => ?_
  refine (Lawful.optionForM fun m => .ite lawful_reportInUnit .pure).before fun _ => ?_
  dsimp only
  split
  · exact Lawful.before lawful_resolveMethodCallout fun _ => .pure fun _ _ => rfl
  · exact Lawful.before lawful_resolveFieldCallout fun _ => .pure fun _ _ => rfl
  · exact Lawful.before lawful_resolveFieldCallout fun _ => .pure fun _ _ => rfl

section Mappings

variable {role : BindingId}

theorem stable_ownsMapping {m : MappingId} : Stable ℓ fun e => e.OwnsMapping role m :=
  fun _ _ _ runs owns => owns.of_lasts runs.lasts

theorem stable_ownsMappings {list : List MappingId} :
    Stable ℓ fun e => ∀ m ∈ list, e.OwnsMapping role m :=
  fun _ _ _ runs h m hm => stable_ownsMapping runs (h m hm)

theorem mappings_append_triple {callins callouts : Resolve (List MappingId)}
    (hx : Triple ℓ (fun _ => True) callins fun list e => ∀ m ∈ list, e.OwnsMapping role m)
    (hy : Triple ℓ (fun _ => True) callouts fun list e => ∀ m ∈ list, e.OwnsMapping role m) :
    Triple ℓ (fun _ => True) (do return (← callins) ++ (← callouts))
      fun list e => ∀ m ∈ list, e.OwnsMapping role m := by
  refine hx.bind fun first => hy.framed_bind stable_ownsMappings (fun _ _ => trivial) fun second => ?_
  exact .pure fun _ h m hm => (List.mem_append.1 hm).elim (h.2 m) (h.1 m)

theorem addMapping_of_role {x : Resolve Mapping}
    (h : Triple ℓ (fun _ => True) x fun mapping _ => mapping.role = role) :
    Triple ℓ (fun _ => True) (x >>= addMapping) fun m e => e.OwnsMapping role m := by
  refine h.bind fun mapping => Triple.of_start ?_
  rintro _ rfl
  exact addMapping_triple.any

theorem declaredMappings_triple {decl : TypeDecl} {unit : UnitId} :
    Triple (ℓ + 5) (fun _ => True) (declaredMappings role decl unit)
      fun list e => ∀ m ∈ list, e.OwnsMapping role m := by
  refine .ite (.pure fun _ _ _ => nofun) ?_
  refine (Lawful.ask _ (by simp)).before fun declared => Lawful.get.before fun e => ?_
  refine .ite (.pure fun _ _ _ => nofun) ?_
  split
  · exact Lawful.before lawful_reportInUnit fun _ => .pure fun _ _ _ => nofun
  · exact mappings_append_triple
      (.mapM (fun _ => addMapping_of_role resolveCallin_triple) fun _ => stable_ownsMapping)
      (.mapM (fun _ => addMapping_of_role resolveCallout_triple) fun _ => stable_ownsMapping)

theorem lawful_recordedMethod {owner : BindingId} {name signature : String} :
    Lawful (ℓ + 5) (recordedMethod owner name signature) :=
  .bind lawful_findMethods fun _ => .bind .get fun _ => .pure

theorem compiledCallin_triple {base : Option BindingId} {record : Descriptor.CallinRecord}
    {index : Nat} : Triple (ℓ + 5) (fun _ => True) (compiledCallin role base record index)
      fun m e => e.OwnsMapping role m := by
  refine Lawful.before lawful_recordedMethod fun roleMethod => ?_
  extract_lets finish
  have finished : ∀ baseMethods, Triple (ℓ + 5) (fun _ => True) (finish baseMethods)
      fun m e => e.OwnsMapping role m := fun _ => Lawful.get.before fun _ => addMapping_triple
  split
  · exact (Lawful.filterMapM fun _ => lawful_recordedMethod).before finished
  · exact Lawful.pure.before finished

theorem compiledCallout_triple {base : Option BindingId} {record : Descriptor.CalloutRecord}
    {index : Nat} : Triple (ℓ + 5) (fun _ => True) (compiledCallout role base record index)
      fun m e => e.OwnsMapping role m := by
  refine Lawful.before lawful_recordedMethod fun roleMethod => ?_
  extract_lets mapping
  split
  · exact addMapping_triple
  · exact Lawful.before lawful_recordedMethod fun _ => addMapping_triple
  · exact Lawful.before lawful_findField fun _ => addMapping_triple

theorem compiledMappings_triple {d : Descriptor} :
    Triple (ℓ + 5) (fun _ => True) (compiledMappings role d)
      fun list e => ∀ m ∈ list, e.OwnsMapping role m := by
  unfold compiledMappings
  split
  · exact .pure fun _ _ _ => nofun
  · refine (Lawful.ask _ (by simp)).before fun _ => ?_
    exact mappings_append_triple (.mapM (fun _ => compiledCallin_triple) fun _ => stable_ownsMapping)
      (.mapM (fun _ => compiledCallout_triple) fun _ => stable_ownsMapping)

end Mappings

theorem mappings_triple {role : BindingId} :
    Triple (ℓ + 6) (fun _ => True) (mappings role) fun list e =>
      (e.binding role).isRole = false ∧ list = [] ∨ e.slot (.mappings role) = .resolved list := by
  refine .get_bind fun e => ?_
  extract_lets finish
  have finished {start : Env} : ∀ list, Latched start (ℓ + 6) (.mappings role)
      (fun e => ∀ m ∈ list, e.OwnsMapping role m) (finish list) fun list e =>
        (e.binding role).isRole = false ∧ list = [] ∨ e.slot (.mappings role) = .resolved list :=
    fun _ => .finish (fun _ h => h) (fun _ _ => trivial) (.pure fun _ h => .inr h)
  split
  · next resolved =>
    refine .pure ?_
    rintro _ ⟨rfl, -⟩
    exact .inr resolved
  · next begun =>
    refine (reentrant_triple (p := .mappings role) rfl (by simp)).pre ?_
    rintro _ ⟨rfl, -⟩
    exact begun
  · next fresh =>
    by_cases isRole : (e.binding role).isRole = true
    · rw [if_pos isRole]
      refine (Triple.begin (p := .mappings role) (by simp) fun _ => ?_).pre ?_
      · split
        · exact .bind declaredMappings_triple finished
        · exact .bind compiledMappings_triple finished
        · exact .bind (.pure fun _ _ _ => nofun) finished
      · rintro _ ⟨rfl, -⟩
        exact ⟨isRole, fresh⟩
    · rw [if_neg isRole]
      refine .pure ?_
      rintro _ ⟨rfl, -⟩
      exact .inl ⟨Bool.eq_false_iff.2 isRole, rfl⟩

theorem lawful_mappings {role : BindingId} : Lawful (ℓ + 6) (mappings role) :=
  Triple.lawful mappings_triple

theorem lawful_callins {role : BindingId} : Lawful (ℓ + 6) (callins role) :=
  .bind lawful_mappings fun _ => .bind .get fun _ => .pure

theorem lawful_checkBaseCalls {m : MethodId} : Lawful ℓ (checkBaseCalls m) :=
  .bind .get fun _ => .forM fun _ => lawful_reportFor

open Precedence

theorem lawful_reportIncompatible {team : BindingId} {span : Span}
    {pair : MappingId × MappingId} : Lawful ℓ (reportIncompatible team span pair) :=
  .bind .get fun _ => lawful_reportFor

theorem lawful_entriesOf {entries : List Entry} {role : BindingId} :
    Lawful (ℓ + 6) (entriesOf entries role) := by
  refine .bind .get fun _ => .bind lawful_callins fun _ => .bind .get fun _ => ?_
  refine .bind lawful_tsuperRoles fun _ => .foldlM (fun _ _ => ?_) _
  exact .bind lawful_callins fun _ => .bind .get fun _ => .pure

theorem lawful_precedenceEntries {team : BindingId} : Lawful (ℓ + 6) (precedenceEntries team) :=
  .bind lawful_memberTypes fun _ => .bind .get fun _ => .foldlM (fun _ _ => lawful_entriesOf) _

theorem lawful_checkDuplicateLabels {entries : List Entry} :
    Lawful ℓ (checkDuplicateLabels entries) := by
  refine .bind .get fun e => .discard (.foldlM (fun seen entry => ?_) _)
  exact .ite (.bind lawful_reportFor fun _ => .pure) .pure

theorem lawful_precedenceDeclarations {team : BindingId} :
    Lawful (ℓ + 1) (precedenceDeclarations team) :=
  lawful_superTeams fun _ _ => .bind .get fun _ => .pure

theorem lawful_declaredEdges {team : BindingId} {entries : List Entry} {declared : Declared} :
    Lawful ℓ (declaredEdges team entries declared) := by
  refine .bind (.mapM fun element => ?_) fun _ => .pure
  exact .ite (.bind lawful_reportFor fun _ => .pure) .pure

theorem lawful_checkOppositeEdges {team : BindingId} {edges : List Edge} {reported : Reported} :
    Lawful ℓ (checkOppositeEdges team edges reported) :=
  .foldlM (fun _ _ => .ite (.bind lawful_reportIncompatible fun _ => .pure) .pure) _

theorem lawful_checkLeftover {team : BindingId} {left : List MappingId} {reported : Reported} :
    Lawful ℓ (checkLeftover team left reported) := by
  unfold checkLeftover
  split
  · refine .ite .pure (.bind .get fun _ => ?_)
    exact .bind lawful_reportIncompatible fun _ => .pure
  · exact .pure

theorem lawful_orderJoinPoint {team : BindingId} {entries : List Entry} {edges : List Edge}
    {point : JoinPoint} {reported : Reported} :
    Lawful ℓ (orderJoinPoint team entries edges point reported) := by
  refine .bind .get fun _ => .bind (.forM fun _ => lawful_reportFor) fun _ => ?_
  split
  · exact .throw rfl
  · exact .bind lawful_checkLeftover fun _ => .pure

theorem lawful_orderCallins {team : BindingId} : Lawful (ℓ + 6) (orderCallins team) := by
  refine .bind lawful_precedenceEntries fun _ => .bind lawful_checkDuplicateLabels fun _ => ?_
  refine .bind lawful_precedenceDeclarations fun _ => .bind (.mapM fun _ => lawful_declaredEdges)
    fun _ => ?_
  refine .bind lawful_checkOppositeEdges fun _ => .bind lawful_checkOppositeEdges fun _ => ?_
  refine .bind .get fun _ => .foldlM (fun _ _ => ?_) _
  exact .bind lawful_orderJoinPoint fun _ => .pure

theorem lawful_computePrecedence {team : BindingId} : Lawful (ℓ + 6) (computePrecedence team) :=
  .bind lawful_orderCallins fun _ => .pure

theorem precedence_triple {team : BindingId} :
    Triple (ℓ + 7) (fun _ => True) (precedence team)
      fun table e => e.cache (.precedence team) = some table := by
  refine .get_bind fun e => ?_
  split
  · next filled =>
    refine .pure ?_
    rintro _ ⟨rfl, -⟩
    exact filled
  · next empty =>
    extract_lets finish
    have finished : ∀ table, Triple (ℓ + 7) (fun e => e.Awaits (.precedence team)) (finish table)
        fun table e => e.cache (.precedence team) = some table :=
      fun _ => .store (c := .precedence team) (by simp) (fun _ h => ⟨h, trivial⟩) (.pure fun _ h => h)
    refine Triple.pre (P := fun e => e.Awaits (.precedence team)) (.ite ?_ ?_) ?_
    · exact Lawful.keepingAt 6 (by simp) lawful_computePrecedence (stable_awaits (by simp)) finished
    · exact Lawful.pure.keepingAt 6 (by simp) (stable_awaits (by simp)) finished
    · rintro _ ⟨rfl, -⟩
      exact ⟨empty, trivial⟩

theorem lawful_precedence {team : BindingId} : Lawful (ℓ + 7) (precedence team) :=
  Triple.lawful precedence_triple

end TeamRoles.Resolve
