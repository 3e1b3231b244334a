import TeamRoles.Proofs.Lawful.References
import TeamRoles.Proofs.Scoped.Lookup

/-!
References to types, in signatures and as they are written: what they mean is in scope.
-/

namespace TeamRoles

/-- The variables of a method that a signature may mention are there. -/
def SignatureScope.Fits (e : Env) (scope : SignatureScope) : Prop := ∀ v ∈ scope.methodVars, e.HasVar v

theorem SignatureScope.Fits.mono {e d : Env} {scope : SignatureScope} (h : scope.Fits e) (le : e.Develops d) :
    scope.Fits d :=
  fun v hv => le.hasVar (h v hv)

theorem SignatureScope.fits_of_owner {e : Env} {owner : BindingId} : SignatureScope.Fits e { owner } :=
  List.forall_mem_nil _

theorem Env.rooted_instantiate {e d : Env} {b : BindingId} {args : List Ty} {enclosing : Option Ty}
    (h : e.HasType b) : e.Rooted (d.instantiate b args enclosing) := by
  unfold instantiate
  split
  · trivial
  · split
    · exact h
    · trivial

namespace Resolve

variable {e : Env}

open Signature

theorem typeOfVar_from {scope : SignatureScope} {name : String} (fits : scope.Fits e) :
    From e (typeOfVar scope name) fun t d => d.Rooted t := by
  refine .get_bind fun d le => ?_
  split
  · next v found =>
    refine .pure fun _ hc => (le.trans hc).hasVar (fits v (List.mem_of_find?_eq_some found))
  · refine (From.findSomeM? (fun owner _ => ?_) lasting_hasVar).bind fun found c _ known => ?_
    · refine ask_typeVariables.bind fun vars c _ known => .get_bind fun c' hc => .pure fun _ hc' v found => ?_
      exact (hc.trans hc').hasVar (known v (List.mem_of_find?_eq_some found))
    · cases found with
      | some v => exact .pure fun _ hc => hc.hasVar (known v rfl)
      | none => exact problemType_from

mutual

theorem typeOfSig_from {e : Env} {scope : SignatureScope} (fits : scope.Fits e) (t : TypeSig) :
    From e (typeOfSig scope t) fun t d => d.Rooted t := by
  match t with
  | .base b => exact .pure fun _ _ => trivial
  | .cls segments =>
    refine typeOfSegments_from fits ?_ segments
    nofun
  | .var name => exact typeOfVar_from fits
  | .array component =>
    exact (typeOfSig_from fits component).bind fun _ _ _ rooted => .pure fun _ hc => hc.rooted rooted

theorem typeOfSegments_from {e : Env} {scope : SignatureScope} {outer : String} {enclosing : Option Ty}
    (fits : scope.Fits e) (known : ∀ t ∈ enclosing, e.Rooted t) (segments : List Segment) :
    From e (typeOfSegments scope outer enclosing segments) fun t d => d.Rooted t := by
  match segments with
  | [] =>
    rw [typeOfSegments.eq_def]
    cases enclosing with
    | some t => exact .pure fun _ le => le.rooted (known t rfl)
    | none => exact .throw
  | .mk name args :: rest =>
    rw [typeOfSegments]
    refine findTypeOrProblem_from.bind fun b d le inside => ?_
    refine (typesOfSigArgs_from (fits.mono le) args).bind fun args c hc _ => .get_bind fun c' hc' => ?_
    refine typeOfSegments_from (fits.mono (le.trans (hc.trans hc'))) ?_ rest
    rintro _ ⟨⟩
    exact Env.rooted_instantiate ((hc.trans hc').hasType inside)

theorem typesOfSigArgs_from {e : Env} {scope : SignatureScope} (fits : scope.Fits e) (args : List TypeArg) :
    From e (typesOfSigArgs scope args) fun _ _ => True := by
  match args with
  | [] => exact .pure fun _ _ => trivial
  | arg :: args =>
    refine (typeOfSigArg_from fits arg).bind fun _ _ le _ => ?_
    exact (typesOfSigArgs_from (fits.mono le) args).bind fun _ _ _ _ => .pure fun _ _ => trivial

theorem typeOfSigArg_from {e : Env} {scope : SignatureScope} (fits : scope.Fits e) (arg : TypeArg) :
    From e (typeOfSigArg scope arg) fun _ _ => True := by
  match arg with
  | .any => exact .pure fun _ _ => trivial
  | .extends bound => exact (typeOfSig_from fits bound).bind fun _ _ _ _ => .pure fun _ _ => trivial
  | .super bound => exact (typeOfSig_from fits bound).bind fun _ _ _ _ => .pure fun _ _ => trivial
  | .exact t => exact (typeOfSig_from fits t).quietly

end

theorem typesOfSigs_from {scope : SignatureScope} {ts : List TypeSig} (fits : scope.Fits e) :
    From e (ts.mapM (typeOfSig scope)) fun ts d => ∀ t ∈ ts, d.Rooted t :=
  .mapM (fun t _ => typeOfSig_from fits t) lasting_rooted

theorem typeOfClass_from {scope : SignatureScope} {c : ClassType} (fits : scope.Fits e) :
    From e (typeOfClass scope c) fun t d => d.Rooted t := by
  refine typeOfSegments_from fits ?_ c.segments
  nofun

theorem lasting_meaning (m : Meaning) : Lasting fun e => m.Fits e := by
  intro e d le h
  cases m with
  | found b => exact le.hasType h
  | _ => trivial

theorem seenFrom_from {site : Site} {b : BindingId} (inside : e.HasType b) :
    From e (seenFrom site b) fun m d => m.Fits d := by
  refine .get_bind fun d le => .ite (fun _ => .pure fun _ hc => ?_) fun _ => .pure fun _ _ => trivial
  exact (le.trans hc).hasType inside

theorem findTypeVar_from {name : String} {site : Site} (fits : site.Fits e) :
    From e (findTypeVar name site) fun found d => ∀ v ∈ found, d.HasVar v := by
  refine .get_bind fun d le => ?_
  split
  · next v found =>
    refine .pure fun _ hc _ same => ?_
    cases same
    exact (le.trans hc).hasVar (fits.methodVars v (List.mem_of_find?_eq_some found))
  · refine .findSomeM? (fun owner _ => .get_bind fun c _ => ?_) lasting_hasVar
    refine .ite (fun _ => ?_) fun _ => .pure fun _ _ _ h => absurd h (Option.not_mem_none _)
    refine ask_typeVariables.bind fun vars c _ known => .get_bind fun c' hc => .pure fun _ hc' v found => ?_
    exact (hc.trans hc').hasVar (known v (List.mem_of_find?_eq_some found))

theorem sighted_from {site : Site} {b : BindingId} (inside : e.HasType b) :
    From e (do return some (← seenFrom site b)) fun found d => ∀ m ∈ found, m.Fits d := by
  refine (seenFrom_from inside).bind fun m d _ fits => .pure fun _ hc _ same => ?_
  cases same
  exact lasting_meaning m hc fits

theorem findAround_from {simple : String} {site : Site} (fits : site.Fits e) :
    From e (findAround simple site) fun found d => ∀ m ∈ found, m.Fits d := by
  refine .get_bind fun d le => .findSomeM? (fun t ht => ?_) lasting_meaning
  have inside : d.HasType t := by
    cases membersOf : site.membersOf with
    | none => simp [membersOf] at ht
    | some b =>
      simp only [membersOf, Option.map_some, Option.getD_some] at ht
      exact le.closed.mem_enclosingChain (le.hasType (fits.membersOf b membersOf)) t ht
  refine .get_bind fun c hc => .ite (fun _ => .pure fun _ hc' _ same => ?_) fun _ => ?_
  · cases same
    exact (hc.trans hc').hasType inside
  · refine findMemberType_from.bind fun found c _ known => ?_
    cases found with
    | some m => exact sighted_from (known m rfl)
    | none => exact .pure fun _ _ => nofun

theorem findInPackage_from {simple : String} {site : Site} {package : String} :
    From e (findInPackage simple site package) fun found d => ∀ m ∈ found, m.Fits d := by
  refine findProper_from.bind fun found d _ known => ?_
  cases found with
  | some b => exact sighted_from (known b rfl)
  | none => exact .pure fun _ _ => nofun

theorem findOnDemand_from {simple : String} {site : Site} {targets : List OnDemand} :
    From e (findOnDemand simple site targets) fun found d => ∀ m ∈ found, m.Fits d := by
  refine (From.filterMapM (fun target _ => ?_) lasting_hasType).bind fun found d _ known => ?_
  · cases target with
    | package package => exact findProper_from
    | type owner => exact findMemberType_from
  · split
    · exact .pure fun _ _ => nofun
    · next b one =>
      refine sighted_from (known b ?_)
      have mem : b ∈ found.foldl (fun list b => if list.contains b then list else list ++ [b]) [] := by
        rw [one]
        exact List.mem_singleton_self b
      exact (mem_of_mem_foldl_add mem).resolve_left nofun
    · refine .pure fun _ _ _ same => ?_
      cases same
      trivial

theorem findInUnit_from {simple : String} {site : Site} :
    From e (findInUnit simple site) fun found d => ∀ m ∈ found, m.Fits d := by
  refine .get_bind fun d le => ?_
  split
  · next own found =>
    refine .pure fun _ hc _ same => ?_
    cases same
    exact hc.hasType ((le.closed.units site.unit).types own (List.mem_of_find?_eq_some found))
  · refine imports_from.bind fun imports c _ known => ?_
    split
    · next b found =>
      refine .pure fun _ hc _ same => ?_
      cases same
      refine hc.hasType ?_
      rw [Option.orElse_eq_orElse, Option.orElse_eq_or, Option.or_eq_some_iff] at found
      rcases found with single | ⟨-, base⟩
      · exact known.single _ (Env.mem_of_lookup single)
      · split at base
        · obtain ⟨i, hi, rfl⟩ := Option.map_eq_some_iff.1 base
          exact known.base i (List.mem_of_find?_eq_some hi)
        · cases base
    · refine findInPackage_from.bind fun found c _ known => ?_
      cases found with
      | some m => exact .pure fun _ hc m' same => lasting_meaning m' hc (known m' same)
      | none =>
        refine findOnDemand_from.bind fun found c _ known => ?_
        cases found with
        | some m => exact .pure fun _ hc m' same => lasting_meaning m' hc (known m' same)
        | none => exact .get_bind fun c _ => .findSomeM? (fun _ _ => findInPackage_from) lasting_meaning

theorem findSimple_from {simple : String} {site : Site} (fits : site.Fits e) :
    From e (findSimple simple site) fun m d => m.Fits d := by
  refine (findAround_from fits).bind fun found d _ known => ?_
  cases found with
  | some m => exact .pure fun _ hc => lasting_meaning m hc (known m rfl)
  | none =>
    refine findInUnit_from.bind fun found d _ known => .pure fun _ hc => ?_
    cases found with
    | some m => exact lasting_meaning m hc (known m rfl)
    | none => trivial

theorem calm_recordReference {unit : UnitId} {segments : List String} : Calm (recordReference unit segments) :=
  calm_updateUnit (fun _ => rfl) fun _ => rfl

theorem undefined_from {site : Site} {name : String} : From e (undefined site name) fun t d => d.Rooted t :=
  .after calm_reportInUnit fun _ _ _ => problemType_from

theorem invisible_from {site : Site} {b : BindingId} : From e (invisible site b) fun t d => d.Rooted t :=
  .get_bind fun _ _ => .after calm_reportInUnit fun _ _ _ => problemType_from

/-- The arguments of a segment are resolved quietly wherever the place makes sense. -/
def SegmentRef.Calm (site : Site) (segment : SegmentRef) : Prop :=
  ∀ e, site.Fits e → From e segment.args fun _ _ => True

theorem applyArgs_from {site : Site} {b : BindingId} {segment : SegmentRef} {enclosing : Option Ty}
    (fits : site.Fits e) (inside : e.HasType b) (args : SegmentRef.Calm site segment) :
    From e (applyArgs site b segment enclosing) fun t d => d.Rooted t := by
  refine .get_bind fun d le => ?_
  have inside := le.hasType inside
  have made (d : Env) (inside : d.HasType b) (args : List Ty) (c : Env) (enclosing : Option Ty) :
      From d (pure (c.instantiate b args enclosing)) fun t d => d.Rooted t :=
    .pure fun _ hc => Env.rooted_instantiate (hc.hasType inside)
  refine .ite (fun _ => made d inside [] d enclosing) fun _ => .ite (fun _ => ?_) fun _ => ?_
  · refine ask_typeVariables.bind fun vars c hc _ => .ite (fun _ => ?_) fun _ => ?_
    · refine (args c (fits.mono (le.trans hc))).bind fun args c' hc' _ => .get_bind fun c'' hc'' => ?_
      refine .after (.quiet fun _ => rfl) fun _ last le => ?_
      exact made last ((hc.trans (hc'.trans (hc''.trans le))).hasType inside) args c'' enclosing
    · refine .after calm_reportInUnit fun _ c' hc' => .get_bind fun c'' hc'' => ?_
      exact made c'' ((hc.trans (hc'.trans hc'')).hasType inside) [] c'' enclosing
  · exact .after calm_reportInUnit fun _ _ hc => .pure fun _ hc' => (hc.trans hc').hasType inside

theorem typeOfMembers_from {site : Site} {display : String} {b : BindingId} {t : Ty} {segments : List SegmentRef}
    (fits : site.Fits e) (rooted : e.Rooted t) (args : ∀ s ∈ segments, SegmentRef.Calm site s) :
    From e (typeOfMembers site display b t segments) fun t d => d.Rooted t := by
  induction segments generalizing b t e with
  | nil =>
    refine .get_bind fun d le => .after (calm_updateUnit ?_ ?_) fun _ c hc => .pure fun _ hc' => ?_
    · exact fun _ => rfl
    · exact fun _ => rfl
    · exact (le.trans (hc.trans hc')).rooted rooted
  | cons segment rest ih =>
    obtain ⟨here, later⟩ := List.forall_mem_cons.1 args
    rw [typeOfMembers]
    refine findMemberType_from.bind fun found d le inside => ?_
    cases found with
    | none => exact undefined_from
    | some member =>
      refine .get_bind fun c hc => .ite (fun _ => invisible_from) fun _ => ?_
      have fits := fits.mono (le.trans hc)
      refine (applyArgs_from fits (hc.hasType (inside member rfl)) here).bind fun inner c' hc' rooted => ?_
      exact ih (fits.mono hc') rooted later

theorem findQualifiedHead_from {package : String} {before : Nat} {names : List String} :
    From e (findQualifiedHead package before names) fun found d => ∀ head ∈ found, d.HasType head.1 := by
  fun_induction findQualifiedHead package before names generalizing e
  case case1 ih =>
    refine findProper_from.bind fun found d _ known => ?_
    cases found with
    | some b =>
      refine .pure fun _ hc _ same => ?_
      cases same
      exact hc.hasType (known b rfl)
    | none => exact ih
  case case2 => exact .pure fun _ _ _ h => absurd h (Option.not_mem_none _)

theorem typeOfHead_from {site : Site} {display : String} {b : BindingId} {segments : List SegmentRef}
    (fits : site.Fits e) (inside : e.HasType b) (args : ∀ s ∈ segments, SegmentRef.Calm site s) :
    From e (typeOfHead site display b segments) fun t d => d.Rooted t := by
  cases segments with
  | nil => exact .pure fun _ le => le.hasType inside
  | cons segment rest =>
    obtain ⟨here, later⟩ := List.forall_mem_cons.1 args
    exact (applyArgs_from fits inside here).bind fun t d le rooted => typeOfMembers_from (fits.mono le) rooted later

theorem typeOfQualified_from {site : Site} {display : String} {segments : List SegmentRef}
    (fits : site.Fits e) (args : ∀ s ∈ segments, SegmentRef.Calm site s) :
    From e (typeOfQualified site display segments) fun t d => d.Rooted t := by
  refine findQualifiedHead_from.bind fun found d le known => ?_
  cases found with
  | none => exact undefined_from
  | some head =>
    refine .get_bind fun c hc => .ite (fun _ => invisible_from) fun _ => ?_
    refine typeOfHead_from (fits.mono (le.trans hc)) (hc.hasType (known head rfl)) fun s hs => ?_
    exact args s (List.mem_of_mem_drop hs)

theorem typeOfName_from {site : Site} {segments : List SegmentRef} (fits : site.Fits e)
    (args : ∀ s ∈ segments, SegmentRef.Calm site s) :
    From e (typeOfName site segments) fun t d => d.Rooted t := by
  refine .after calm_recordReference fun _ d le => ?_
  have fits := fits.mono le
  split
  · exact .after calm_reportInUnit fun _ _ _ => problemType_from
  · extract_lets look
    have looked (var : Option TypeVarId) (e : Env) (le : d.Develops e) (known : ∀ v ∈ var, e.HasVar v) :
        From e (look var) fun t d => d.Rooted t := by
      cases var with
      | some v => exact .pure fun _ hc => hc.hasVar (known v rfl)
      | none =>
        refine (findSimple_from (fits.mono le)).bind fun meaning c hc known => ?_
        have fits := fits.mono (le.trans hc)
        cases meaning with
        | found b => exact typeOfHead_from fits known args
        | notVisible b => exact .ite (fun _ => invisible_from) fun _ => typeOfQualified_from fits args
        | ambiguous candidates =>
          exact .get_bind fun _ _ => .after calm_reportInUnit fun _ _ _ => problemType_from
        | notFound => exact typeOfQualified_from fits args
    refine .ite (fun _ => ?_) fun _ => .pure_bind (looked none d (.refl le.closed) nofun)
    exact (findTypeVar_from fits).bind fun var e le known => looked var e le known

mutual

theorem typeOfSpec_from {e : Env} {site : Site} (fits : site.Fits e) (spec : TypeSpec) :
    From e (typeOfSpec site spec) fun t d => d.Rooted t := by
  match spec with
  | .primitive keyword =>
    rw [typeOfSpec]
    split
    · exact .pure fun _ _ => trivial
    · exact .after calm_reportInUnit fun _ _ _ => problemType_from
  | .named segments =>
    rw [typeOfSpec]
    exact typeOfName_from fits (segmentRefs_calm segments)
  | .variable name =>
    rw [typeOfSpec]
    refine (findTypeVar_from fits).bind fun found d _ known => ?_
    cases found with
    | some v => exact .pure fun _ hc => hc.hasVar (known v rfl)
    | none => exact .after calm_recordReference fun _ _ _ => undefined_from
  | .array component =>
    rw [typeOfSpec]
    exact (typeOfSpec_from fits component).bind fun _ _ _ rooted => .pure fun _ hc => hc.rooted rooted
  | .anchored role anchor =>
    rw [typeOfSpec]
    refine (findSimple_from fits).bind fun meaning d _ known => ?_
    cases meaning with
    | found b => exact .pure fun _ hc => hc.hasType known
    | _ => exact problemType_from

theorem segmentRefs_calm {site : Site} (segments : List NameSegment) :
    ∀ s ∈ segmentRefs site segments, SegmentRef.Calm site s := by
  match segments with
  | [] =>
    rw [segmentRefs]
    nofun
  | .mk name args :: rest =>
    rw [segmentRefs]
    exact List.forall_mem_cons.2 ⟨fun _ fits => typesOfArgs_from fits args, segmentRefs_calm rest⟩

theorem typesOfArgs_from {e : Env} {site : Site} (fits : site.Fits e) (args : List TypeArgSpec) :
    From e (typesOfArgs site args) fun _ _ => True := by
  match args with
  | [] =>
    rw [typesOfArgs]
    exact .pure fun _ _ => trivial
  | arg :: args =>
    rw [typesOfArgs]
    refine (typeOfArg_from fits arg).bind fun _ _ le _ => ?_
    exact (typesOfArgs_from (fits.mono le) args).bind fun _ _ _ _ => .pure fun _ _ => trivial

theorem typeOfArg_from {e : Env} {site : Site} (fits : site.Fits e) (arg : TypeArgSpec) :
    From e (typeOfArg site arg) fun _ _ => True := by
  match arg with
  | .type t =>
    rw [typeOfArg]
    exact (typeOfSpec_from fits t).quietly
  | .wildcard =>
    rw [typeOfArg]
    exact .pure fun _ _ => trivial
  | .extends bound =>
    rw [typeOfArg]
    exact (typeOfSpec_from fits bound).bind fun _ _ _ _ => .pure fun _ _ => trivial
  | .super bound =>
    rw [typeOfArg]
    exact (typeOfSpec_from fits bound).bind fun _ _ _ _ => .pure fun _ _ => trivial

end

theorem typesOfSpecs_from {site : Site} {specs : List TypeSpec} (fits : site.Fits e) :
    From e (typesOfSpecs site specs) fun ts d => ∀ t ∈ ts, d.Rooted t :=
  .mapM (fun spec _ => typeOfSpec_from fits spec) lasting_rooted

end Resolve

end TeamRoles
