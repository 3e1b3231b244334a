import TeamRoles.Proofs.Pairing.Lookup

/-!
Written references to types keep pairings, where bounds may be left for a later check.
-/

namespace TeamRoles.Resolve

variable {p : Pairing}

theorem keeps_seenFrom {site : Site} {b : BindingId} : Keeps p (seenFrom site b) := by
  unfold seenFrom
  exact .get_bind (fun _ _ => by simp only [Env.isVisibleFrom_under]) fun _ _ => .ite .pure .pure

theorem keeps_findTypeVar {name : String} {site : Site} : Keeps p (findTypeVar name site) := by
  refine .get_bind (fun e r => ?_) fun e _ => ?_
  · have chain : (e.under r).enclosingChain = e.enclosingChain :=
      funext fun _ => Env.enclosingChain_under
    rw [chain]
    rfl
  · split
    · exact .pure
    · refine .findSomeM? fun owner _ => .get_bind (fun _ _ => rfl) fun _ _ => .ite ?_ .pure
      exact Keeps.ask.bind fun _ => .get_bind (fun _ _ => rfl) fun _ _ => .pure

theorem keeps_findAround {simple : String} {site : Site} : Keeps p (findAround simple site) := by
  refine .get_bind (fun e r => ?_) fun e _ => .findSomeM? fun t _ => ?_
  · have chain : (e.under r).enclosingChain = e.enclosingChain :=
      funext fun _ => Env.enclosingChain_under
    rw [chain]
  · refine .get_bind (fun _ _ => rfl) fun _ _ =>
      .ite .pure (keeps_findMemberType.bind fun found => ?_)
    cases found with
    | some m => exact keeps_seenFrom.bind fun _ => .pure
    | none => exact .pure

theorem keeps_findInPackage {simple : String} {site : Site} {package : String} :
    Keeps p (findInPackage simple site package) := by
  refine keeps_findProper.bind fun found => ?_
  cases found with
  | some b => exact keeps_seenFrom.bind fun _ => .pure
  | none => exact .pure

theorem keeps_findOnDemand {simple : String} {site : Site} {targets : List OnDemand} :
    Keeps p (findOnDemand simple site targets) := by
  refine .bind (.filterMapM fun target _ => ?_) fun found => ?_
  · cases target with
    | package package => exact keeps_findProper
    | type owner => exact keeps_findMemberType
  · split
    · exact .pure
    · exact keeps_seenFrom.bind fun _ => .pure
    · exact .pure

theorem keeps_findInUnit {simple : String} {site : Site} : Keeps p (findInUnit simple site) := by
  refine .get_bind (fun _ _ => rfl) fun e _ => ?_
  split
  · exact .pure
  · refine keeps_imports.bind fun imports => ?_
    split
    · exact .pure
    · refine keeps_findInPackage.bind fun meaning => ?_
      cases meaning with
      | some meaning => exact .pure
      | none =>
        refine keeps_findOnDemand.bind fun meaning => ?_
        cases meaning with
        | some meaning => exact .pure
        | none =>
          exact .get_bind (fun _ _ => rfl) fun _ _ => .findSomeM? fun _ _ => keeps_findInPackage

theorem keeps_findSimple {simple : String} {site : Site} : Keeps p (findSimple simple site) := by
  refine keeps_findAround.bind fun meaning => ?_
  cases meaning with
  | some meaning => exact .pure
  | none => exact keeps_findInUnit.bind fun _ => .pure

theorem keeps_recordReference {unit : UnitId} {segments : List String} :
    Keeps p (recordReference unit segments) :=
  keeps_updateUnit ⟨fun _ => rfl, id⟩

theorem keeps_undefined {site : Site} {name : String} : Keeps p (undefined site name) :=
  keeps_reportInUnit.bind fun _ => keeps_problemType

theorem keeps_invisible {site : Site} {b : BindingId} : Keeps p (invisible site b) :=
  .get_bind (fun _ _ => rfl) fun _ _ => keeps_reportInUnit.bind fun _ => keeps_problemType

section Sites

variable {site : Site}

theorem keeps_applyArgs (queues : p.Queues site.unit site.span) {b : BindingId}
    {segment : SegmentRef} {enclosing : Option Ty} (hArgs : Keeps p segment.args) :
    Keeps p (applyArgs site b segment enclosing) := by
  refine .get_bind (fun _ _ => rfl) fun e _ => .ite .pure ?_
  refine .ite ?_ (keeps_reportInUnit.bind fun _ => .pure)
  refine Keeps.ask.bind fun vars => .ite ?_ ?_
  · refine hArgs.bind fun _ => .get_bind (fun _ _ => rfl) fun _ _ => .bind ?_ fun _ => .pure
    exact .modify fun _ _ => p.queue queues
  · exact keeps_reportInUnit.bind fun _ => .get_bind (fun _ _ => rfl) fun _ _ => .pure

theorem keeps_typeOfMembers (queues : p.Queues site.unit site.span) {display : String}
    {b : BindingId} {t : Ty} {segments : List SegmentRef}
    (h : ∀ segment ∈ segments, Keeps p segment.args) :
    Keeps p (typeOfMembers site display b t segments) := by
  induction segments generalizing b t with
  | nil =>
    refine .get_bind (fun _ _ => rfl) fun _ _ => ?_
    exact .bind (keeps_updateUnit ⟨fun _ => rfl, id⟩) fun _ => .pure
  | cons segment segments ih =>
    obtain ⟨hArgs, hRest⟩ := List.forall_mem_cons.1 h
    refine keeps_findMemberType.bind fun member => ?_
    cases member with
    | none => exact keeps_undefined
    | some member =>
      refine .get_bind (fun _ _ => by rw [Env.isVisibleFrom_under]; rfl) fun e _ => ?_
      exact .ite keeps_invisible ((keeps_applyArgs queues hArgs).bind fun _ => ih hRest)

theorem keeps_findQualifiedHead {package : String} {before : Nat} {names : List String} :
    Keeps p (findQualifiedHead package before names) := by
  fun_induction findQualifiedHead package before names with
  | case1 package before first second rest package' ih =>
    refine keeps_findProper.bind fun found => ?_
    cases found with
    | some b => exact .pure
    | none => exact ih
  | case2 => exact .pure

theorem keeps_typeOfHead (queues : p.Queues site.unit site.span) {display : String}
    {b : BindingId} {segments : List SegmentRef}
    (h : ∀ segment ∈ segments, Keeps p segment.args) :
    Keeps p (typeOfHead site display b segments) := by
  cases segments with
  | nil => exact .pure
  | cons segment segments =>
    obtain ⟨hArgs, hRest⟩ := List.forall_mem_cons.1 h
    exact (keeps_applyArgs queues hArgs).bind fun _ => keeps_typeOfMembers queues hRest

theorem keeps_typeOfQualified (queues : p.Queues site.unit site.span) {display : String}
    {segments : List SegmentRef} (h : ∀ segment ∈ segments, Keeps p segment.args) :
    Keeps p (typeOfQualified site display segments) := by
  refine keeps_findQualifiedHead.bind fun found => ?_
  cases found with
  | none => exact keeps_undefined
  | some found =>
    refine .get_bind (fun _ _ => by simp only [Env.isVisibleFrom_under]) fun _ _ => ?_
    refine .ite keeps_invisible (keeps_typeOfHead queues fun segment hs => ?_)
    exact h segment (List.mem_of_mem_drop hs)

theorem keeps_typeOfName (queues : p.Queues site.unit site.span) {segments : List SegmentRef}
    (h : ∀ segment ∈ segments, Keeps p segment.args) : Keeps p (typeOfName site segments) := by
  refine keeps_recordReference.bind fun _ => ?_
  split
  · exact keeps_reportInUnit.bind fun _ => keeps_problemType
  · extract_lets meant
    have keeps_meant : ∀ var, Keeps p (meant var) := by
      intro var
      cases var with
      | some v => exact .pure
      | none =>
        refine keeps_findSimple.bind fun meaning => ?_
        cases meaning with
        | found b => exact keeps_typeOfHead queues h
        | notVisible b => exact .ite keeps_invisible (keeps_typeOfQualified queues h)
        | ambiguous candidates =>
          refine .get_bind (fun _ _ => rfl) fun _ _ => ?_
          exact keeps_reportInUnit.bind fun _ => keeps_problemType
        | notFound => exact keeps_typeOfQualified queues h
    exact .ite (keeps_findTypeVar.bind keeps_meant) (.bind .pure keeps_meant)

mutual

theorem keeps_typeOfSpec (queues : p.Queues site.unit site.span) (t : TypeSpec) :
    Keeps p (typeOfSpec site t) := by
  match t with
  | .primitive keyword =>
    rw [typeOfSpec]
    split
    · exact .pure
    · exact keeps_reportInUnit.bind fun _ => keeps_problemType
  | .named segments =>
    rw [typeOfSpec]
    exact keeps_typeOfName queues (keeps_segmentRefs queues segments)
  | .variable name =>
    rw [typeOfSpec]
    refine keeps_findTypeVar.bind fun found => ?_
    cases found with
    | some v => exact .pure
    | none => exact keeps_recordReference.bind fun _ => keeps_undefined
  | .array component =>
    rw [typeOfSpec]
    exact (keeps_typeOfSpec queues component).bind fun _ => .pure
  | .anchored role anchor =>
    rw [typeOfSpec]
    refine keeps_findSimple.bind fun meaning => ?_
    split
    · exact .pure
    · exact keeps_problemType

theorem keeps_segmentRefs (queues : p.Queues site.unit site.span) (segments : List NameSegment) :
    ∀ segment ∈ segmentRefs site segments, Keeps p segment.args := by
  match segments with
  | [] =>
    rw [segmentRefs]
    exact List.forall_mem_nil _
  | .mk name args :: rest =>
    rw [segmentRefs]
    exact List.forall_mem_cons.2 ⟨keeps_typesOfArgs queues args, keeps_segmentRefs queues rest⟩

theorem keeps_typesOfArgs (queues : p.Queues site.unit site.span) (args : List TypeArgSpec) :
    Keeps p (typesOfArgs site args) := by
  match args with
  | [] =>
    rw [typesOfArgs]
    exact .pure
  | arg :: args =>
    rw [typesOfArgs]
    exact (keeps_typeOfArg queues arg).bind fun _ => (keeps_typesOfArgs queues args).bind fun _ => .pure

theorem keeps_typeOfArg (queues : p.Queues site.unit site.span) (arg : TypeArgSpec) :
    Keeps p (typeOfArg site arg) := by
  match arg with
  | .type t =>
    rw [typeOfArg]
    exact keeps_typeOfSpec queues t
  | .wildcard =>
    rw [typeOfArg]
    exact .pure
  | .extends bound =>
    rw [typeOfArg]
    exact (keeps_typeOfSpec queues bound).bind fun _ => .pure
  | .super bound =>
    rw [typeOfArg]
    exact (keeps_typeOfSpec queues bound).bind fun _ => .pure

end

theorem keeps_typesOfSpecs (queues : p.Queues site.unit site.span) {specs : List TypeSpec} :
    Keeps p (typesOfSpecs site specs) :=
  .mapM fun spec _ => keeps_typeOfSpec queues spec

end Sites

end TeamRoles.Resolve
