import TeamRoles.Proofs.Lawful.Lookup

/-!
Written references to types are resolved lawfully.
-/

namespace TeamRoles.Resolve

variable {ℓ : Nat}

theorem lawful_seenFrom {site : Site} {b : BindingId} : Lawful ℓ (seenFrom site b) := by
  unfold seenFrom
  exact .bind .get fun _ => .ite .pure .pure

theorem lawful_findTypeVar {name : String} {site : Site} : Lawful (ℓ + 1) (findTypeVar name site) := by
  refine .bind .get fun e => ?_
  split
  · exact .pure
  · refine .findSomeM? fun owner => .bind .get fun _ => .ite ?_ .pure
    exact (Lawful.ask _ (by simp)).bind fun _ => .bind .get fun _ => .pure

theorem lawful_findAround {simple : String} {site : Site} : Lawful (ℓ + 1) (findAround simple site) := by
  refine .bind .get fun e => .findSomeM? fun t => .bind .get fun _ => .ite .pure ?_
  refine .bind lawful_findMemberType fun found => ?_
  cases found with
  | some m => exact .bind lawful_seenFrom fun _ => .pure
  | none => exact .pure

theorem lawful_findInPackage {simple : String} {site : Site} {package : String} :
    Lawful ℓ (findInPackage simple site package) := by
  refine .bind lawful_findProper fun found => ?_
  cases found with
  | some b => exact .bind lawful_seenFrom fun _ => .pure
  | none => exact .pure

theorem lawful_findOnDemand {simple : String} {site : Site} {targets : List OnDemand} :
    Lawful (ℓ + 1) (findOnDemand simple site targets) := by
  refine .bind (.filterMapM fun target => ?_) fun found => ?_
  · cases target with
    | package package => exact lawful_findProper
    | type owner => exact lawful_findMemberType
  · split
    · exact .pure
    · exact .bind lawful_seenFrom fun _ => .pure
    · exact .pure

theorem lawful_findInUnit {simple : String} {site : Site} : Lawful (ℓ + 1) (findInUnit simple site) := by
  refine .bind .get fun e => ?_
  split
  · exact .pure
  · refine .bind lawful_imports fun imports => ?_
    split
    · exact .pure
    · refine .bind lawful_findInPackage fun meaning => ?_
      cases meaning with
      | some meaning => exact .pure
      | none =>
        refine .bind lawful_findOnDemand fun meaning => ?_
        cases meaning with
        | some meaning => exact .pure
        | none => exact .bind .get fun _ => .findSomeM? fun _ => lawful_findInPackage

theorem lawful_findSimple {simple : String} {site : Site} : Lawful (ℓ + 1) (findSimple simple site) := by
  refine .bind lawful_findAround fun meaning => ?_
  cases meaning with
  | some meaning => exact .pure
  | none => exact .bind lawful_findInUnit fun _ => .pure

theorem lawful_recordReference {unit : UnitId} {segments : List String} :
    Lawful ℓ (recordReference unit segments) :=
  (lawful_updateUnit fun _ => rfl)

theorem lawful_undefined {site : Site} {name : String} : Lawful ℓ (undefined site name) :=
  .bind lawful_reportInUnit fun _ => lawful_problemType

theorem lawful_invisible {site : Site} {b : BindingId} : Lawful ℓ (invisible site b) :=
  .bind .get fun _ => .bind lawful_reportInUnit fun _ => lawful_problemType

theorem lawful_applyArgs {site : Site} {b : BindingId} {segment : SegmentRef}
    {enclosing : Option Ty} (hArgs : Lawful (ℓ + 1) segment.args) :
    Lawful (ℓ + 1) (applyArgs site b segment enclosing) := by
  refine .bind .get fun e => .ite .pure (.ite ?_ (.bind lawful_reportInUnit fun _ => .pure))
  refine (Lawful.ask _ (by simp)).bind fun vars => .ite ?_ ?_
  · refine hArgs.bind fun _ => .bind .get fun _ => .bind ?_ fun _ => .pure
    exact .elsewhere fun _ => rfl
  · exact .bind lawful_reportInUnit fun _ => .bind .get fun _ => .pure

theorem lawful_typeOfMembers {site : Site} {display : String} {b : BindingId} {t : Ty}
    {segments : List SegmentRef} (h : ∀ segment ∈ segments, Lawful (ℓ + 1) segment.args) :
    Lawful (ℓ + 1) (typeOfMembers site display b t segments) := by
  induction segments generalizing b t with
  | nil => exact .bind .get fun _ => .bind (lawful_updateUnit fun _ => rfl) fun _ => .pure
  | cons segment segments ih =>
    obtain ⟨hArgs, hRest⟩ := List.forall_mem_cons.1 h
    refine .bind lawful_findMemberType fun member => ?_
    cases member with
    | none => exact lawful_undefined
    | some member =>
      refine .bind .get fun e => .ite lawful_invisible ?_
      exact (lawful_applyArgs hArgs).bind fun _ => ih hRest

theorem lawful_findQualifiedHead {package : String} {before : Nat} {names : List String} :
    Lawful ℓ (findQualifiedHead package before names) := by
  fun_induction findQualifiedHead package before names with
  | case1 package before first second rest package' ih =>
    refine .bind lawful_findProper fun found => ?_
    cases found with
    | some b => exact .pure
    | none => exact ih
  | case2 => exact .pure

theorem lawful_typeOfHead {site : Site} {display : String} {b : BindingId}
    {segments : List SegmentRef} (h : ∀ segment ∈ segments, Lawful (ℓ + 1) segment.args) :
    Lawful (ℓ + 1) (typeOfHead site display b segments) := by
  cases segments with
  | nil => exact .pure
  | cons segment segments =>
    obtain ⟨hArgs, hRest⟩ := List.forall_mem_cons.1 h
    exact (lawful_applyArgs hArgs).bind fun _ => lawful_typeOfMembers hRest

theorem lawful_typeOfQualified {site : Site} {display : String} {segments : List SegmentRef}
    (h : ∀ segment ∈ segments, Lawful (ℓ + 1) segment.args) :
    Lawful (ℓ + 1) (typeOfQualified site display segments) := by
  refine .bind lawful_findQualifiedHead fun found => ?_
  cases found with
  | none => exact lawful_undefined
  | some found =>
    refine .bind .get fun _ => .ite lawful_invisible (lawful_typeOfHead ?_)
    exact fun segment hs => h segment (List.mem_of_mem_drop hs)

theorem lawful_typeOfName {site : Site} {segments : List SegmentRef}
    (h : ∀ segment ∈ segments, Lawful (ℓ + 1) segment.args) : Lawful (ℓ + 1) (typeOfName site segments) := by
  refine .bind lawful_recordReference fun _ => ?_
  split
  · exact .bind lawful_reportInUnit fun _ => lawful_problemType
  · extract_lets meant
    have lawful_meant : ∀ var, Lawful (ℓ + 1) (meant var) := by
      intro var
      cases var with
      | some v => exact .pure
      | none =>
        refine .bind lawful_findSimple fun meaning => ?_
        cases meaning with
        | found b => exact lawful_typeOfHead h
        | notVisible b => exact .ite lawful_invisible (lawful_typeOfQualified h)
        | ambiguous candidates =>
          exact .bind .get fun _ => .bind lawful_reportInUnit fun _ => lawful_problemType
        | notFound => exact lawful_typeOfQualified h
    exact .ite (.bind lawful_findTypeVar lawful_meant) (.bind .pure lawful_meant)

mutual

theorem lawful_typeOfSpec {site : Site} (t : TypeSpec) : Lawful (ℓ + 1) (typeOfSpec site t) := by
  match t with
  | .primitive keyword =>
    rw [typeOfSpec]
    split
    · exact .pure
    · exact .bind lawful_reportInUnit fun _ => lawful_problemType
  | .named segments =>
    rw [typeOfSpec]
    exact lawful_typeOfName (lawful_segmentRefs segments)
  | .variable name =>
    rw [typeOfSpec]
    refine .bind lawful_findTypeVar fun found => ?_
    cases found with
    | some v => exact .pure
    | none => exact .bind lawful_recordReference fun _ => lawful_undefined
  | .array component =>
    rw [typeOfSpec]
    exact (lawful_typeOfSpec component).bind fun _ => .pure
  | .anchored role anchor =>
    rw [typeOfSpec]
    refine .bind lawful_findSimple fun meaning => ?_
    split
    · exact .pure
    · exact lawful_problemType

theorem lawful_segmentRefs {site : Site} (segments : List NameSegment) :
    ∀ segment ∈ segmentRefs site segments, Lawful (ℓ + 1) segment.args := by
  match segments with
  | [] =>
    rw [segmentRefs]
    exact fun _ => nofun
  | .mk name args :: rest =>
    rw [segmentRefs]
    exact List.forall_mem_cons.2 ⟨lawful_typesOfArgs args, lawful_segmentRefs rest⟩

theorem lawful_typesOfArgs {site : Site} (args : List TypeArgSpec) :
    Lawful (ℓ + 1) (typesOfArgs site args) := by
  match args with
  | [] =>
    rw [typesOfArgs]
    exact .pure
  | arg :: args =>
    rw [typesOfArgs]
    exact (lawful_typeOfArg arg).bind fun _ => (lawful_typesOfArgs args).bind fun _ => .pure

theorem lawful_typeOfArg {site : Site} (arg : TypeArgSpec) : Lawful (ℓ + 1) (typeOfArg site arg) := by
  match arg with
  | .type t =>
    rw [typeOfArg]
    exact lawful_typeOfSpec t
  | .wildcard =>
    rw [typeOfArg]
    exact .pure
  | .extends bound =>
    rw [typeOfArg]
    exact (lawful_typeOfSpec bound).bind fun _ => .pure
  | .super bound =>
    rw [typeOfArg]
    exact (lawful_typeOfSpec bound).bind fun _ => .pure

end

theorem lawful_typesOfSpecs {site : Site} {specs : List TypeSpec} :
    Lawful (ℓ + 1) (typesOfSpecs site specs) :=
  .mapM lawful_typeOfSpec

end TeamRoles.Resolve
