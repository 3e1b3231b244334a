import TeamRoles.Proofs.Pairing.Basic

/-!
Look-ups of types keep pairings, and so does the declaration of units where units may be added.
-/

namespace TeamRoles.Resolve

variable {p : Pairing} {β : Type}

theorem keeps_attachModels_bind {b : BindingId} {x : Binding} {f : Unit → Resolve β}
    (fresh : x.team = none) (hf : Keeps p (f ())) :
    KeepsFrom p (fun e => e.binding b = x) (attachModels b >>= f) := by
  intro o ho e e' pairs here
  have team : e'.enclosingTeam? b = e.enclosingTeam? b :=
    Pairing.eq_of_pairs (f := (·.enclosingTeam? b)) pairs fun _ _ => Env.enclosingTeam?_under
  have attached (d : Env) :
      attachModels b o d = (.ok (), d.update b (·.attach (d.enclosingTeam? b))) := rfl
  rw [bind_apply_ok (attached e), bind_apply_ok (attached e'), team]
  exact hf o ho _ _ (p.attach (by rw [here, fresh]) pairs)

theorem keeps_reportLimitation {b : BindingId} {d : Descriptor} :
    Keeps p (reportLimitation b d) := by
  unfold reportLimitation
  split
  · exact keeps_reportFor
  · exact keeps_reportFor
  · exact .pure

theorem keeps_addDescriptor {d : Descriptor} : Keeps p (addDescriptor d) := by
  unfold addDescriptor
  extract_lets isTeam add
  have added : ∀ enclosing, Keeps p (add enclosing) := by
    intro enclosing
    refine .get_bind (fun _ _ => rfl) fun e _ => ?_
    split
    · exact .pure
    · refine keeps_addBinding_bind (by simp [Binding.isSource, Binding.unit?]) fun b => ?_
      refine .apart_bind (g := (·.bindName d.name b)) (fun _ _ => rfl) (fun _ => rfl) ?_ fun _ h => h
      refine keeps_attachModels_bind rfl ?_
      exact keeps_reportLimitation.bind fun _ => .pure
  split
  · split
    · exact .bind .pure added
    · exact .bind .ask added
  · exact .bind .pure added

theorem keeps_findType {name : String} : Keeps p (findType name) := by
  refine .get_bind (fun _ _ => rfl) fun e _ => ?_
  split
  · exact .pure
  · refine .ite .pure ?_
    split
    · refine keeps_addDescriptor.bind fun b => .get_bind (fun _ _ => rfl) fun _ _ => ?_
      exact .ite (keeps_bindName.bind fun _ => .pure) .pure
    · exact .bind (keeps_apart (fun _ _ => rfl) fun _ => rfl) fun _ => .pure
    · refine keeps_problemBinding.bind fun b => keeps_bindName.bind fun _ => ?_
      exact keeps_reportFor.bind fun _ => .pure

theorem keeps_findProper {name : String} : Keeps p (findProper name) :=
  Keeps.ask.bind fun _ => .get_bind (fun _ _ => rfl) fun _ _ => .pure

theorem keeps_importedType {name : String} : Keeps p (importedType name) :=
  .findSomeM? fun _ _ => keeps_findProper

theorem keeps_resolveOnDemand {unit : UnitId} {i : ImportDecl} {sofar : Imports} :
    Keeps p (resolveOnDemand unit i sofar) := by
  refine .get_bind (fun _ _ => rfl) fun e _ => .ite .pure (keeps_importedType.bind fun owner => ?_)
  cases owner with
  | some owner => exact .pure
  | none => exact keeps_reportInUnit.bind fun _ => .pure

theorem keeps_importSingle {unit : UnitId} {i : ImportDecl} {target : BindingId}
    {sofar : Imports} : Keeps p (importSingle unit i target sofar) := by
  have reported (id : ProblemId) : Keeps p (do reportInUnit unit id i.span [i.name]; return sofar) :=
    keeps_reportInUnit.bind fun _ => .pure
  refine .get_bind (fun _ _ => by simp) fun e _ => ?_
  split
  · extract_lets simple
    split
    · exact .ite (reported _) .pure
    · split
      · exact .ite (reported _) .pure
      · exact .pure
  · exact reported _

theorem keeps_resolveSingle {unit : UnitId} {i : ImportDecl} {sofar : Imports} :
    Keeps p (resolveSingle unit i sofar) := by
  refine keeps_importedType.bind fun target => ?_
  cases target with
  | none => exact .get_bind (fun _ _ => rfl) fun _ _ => keeps_reportInUnit.bind fun _ => .pure
  | some target =>
    refine .ite .pure (.get_bind (fun _ _ => rfl) fun _ _ => ?_)
    refine .ite (keeps_reportInUnit.bind fun _ => .pure) ?_
    exact .ite .pure keeps_importSingle

theorem keeps_resolveImport {unit : UnitId} {i : ImportDecl} {sofar : Imports} :
    Keeps p (resolveImport unit i sofar) := by
  refine .bind (keeps_updateUnit ⟨fun _ => rfl, id⟩) fun _ => .get_bind (fun _ _ => rfl) fun _ _ => ?_
  refine .ite (keeps_reportInUnit.bind fun _ => .pure) ?_
  exact .ite keeps_resolveOnDemand keeps_resolveSingle

theorem keeps_resolveImports {unit : UnitId} {seen : List ImportDecl} {sofar : Imports}
    {l : List ImportDecl} : Keeps p (resolveImports unit seen sofar l) := by
  induction l generalizing seen sofar with
  | nil => exact .pure
  | cons i l ih =>
    rw [resolveImports]
    exact .ite (keeps_reportInUnit.bind fun _ => ih) (keeps_resolveImport.bind fun _ => ih)

theorem keeps_imports {unit : UnitId} : Keeps p (imports unit) := by
  refine keeps_knownUnit.bind fun u => ?_
  split
  · exact .pure
  · exact .throw
  · refine .bind (keeps_updateUnit ⟨fun _ => rfl, id⟩) fun _ => keeps_resolveImports.bind fun _ => ?_
    exact .bind (keeps_updateUnit ⟨fun _ => rfl, id⟩) fun _ => .pure

theorem verifyBaseImports_eq (unit : UnitId) : ∃ verify : Resolve Unit,
    verifyBaseImports unit = (do
      if ((← get).unit unit).baseImportsVerified then return
      updateUnit unit ({ · with baseImportsVerified := true })
      verify) ∧ ∀ p, Keeps p verify := by
  refine ⟨_, rfl, fun p => ?_⟩
  refine keeps_imports.bind fun imports => .ite .pure (.get_bind (fun _ _ => rfl) fun e _ => ?_)
  refine .bind (.filterMapM fun role _ => Keeps.ask.bind fun _ => .pure) fun bound => ?_
  refine .forM fun i _ => .ite .pure (.get_bind (fun _ _ => ?_) fun _ _ => keeps_reportInUnit)
  simp only [Env.isVisibleFrom_under]

theorem keeps_verifyBaseImports {unit : UnitId} : Keeps p (verifyBaseImports unit) := by
  obtain ⟨verify, eq, keeps⟩ := verifyBaseImports_eq unit
  have marked : SourceUnit.Steady ({ · with baseImportsVerified := true }) :=
    ⟨fun _ => rfl, fun _ => rfl⟩
  rw [eq]
  refine .get_bind (fun _ _ => rfl) fun _ _ => .ite .pure ?_
  exact .bind (keeps_updateUnit marked) fun _ => keeps p

open Signature

theorem keeps_typeOfVar {scope : SignatureScope} {name : String} :
    Keeps p (typeOfVar scope name) := by
  refine .get_bind (fun _ _ => by simp) fun e _ => ?_
  split
  · exact .pure
  · refine .bind (.findSomeM? fun _ _ => Keeps.ask.bind fun _ =>
      .get_bind (fun _ _ => rfl) fun _ _ => .pure)
      fun found => ?_
    cases found with
    | some v => exact .pure
    | none => exact keeps_problemType

mutual

theorem keeps_typeOfSig {scope : SignatureScope} (t : TypeSig) : Keeps p (typeOfSig scope t) := by
  match t with
  | .base b => exact .pure
  | .cls segments => exact keeps_typeOfSegments segments
  | .var name => exact keeps_typeOfVar
  | .array component => exact (keeps_typeOfSig component).bind fun _ => .pure

theorem keeps_typeOfSegments {scope : SignatureScope} {outer : String} {enclosing : Option Ty}
    (segments : List Segment) : Keeps p (typeOfSegments scope outer enclosing segments) := by
  match segments with
  | [] =>
    rw [typeOfSegments.eq_def]
    cases enclosing with
    | some t => exact .pure
    | none => exact .throw
  | .mk name args :: rest =>
    rw [typeOfSegments]
    exact keeps_findTypeOrProblem.bind fun _ => (keeps_typesOfSigArgs args).bind fun _ =>
      .get_bind (fun _ _ => rfl) fun _ _ => keeps_typeOfSegments rest

theorem keeps_typesOfSigArgs {scope : SignatureScope} (args : List TypeArg) :
    Keeps p (typesOfSigArgs scope args) := by
  match args with
  | [] => exact .pure
  | arg :: args =>
    exact (keeps_typeOfSigArg arg).bind fun _ => (keeps_typesOfSigArgs args).bind fun _ => .pure

theorem keeps_typeOfSigArg {scope : SignatureScope} (arg : TypeArg) :
    Keeps p (typeOfSigArg scope arg) := by
  match arg with
  | .any => exact .pure
  | .extends bound => exact (keeps_typeOfSig bound).bind fun _ => .pure
  | .super bound => exact (keeps_typeOfSig bound).bind fun _ => .pure
  | .exact type => exact keeps_typeOfSig type

end

theorem keeps_typeOfClass {scope : SignatureScope} {c : ClassType} : Keeps p (typeOfClass scope c) :=
  keeps_typeOfSegments c.segments

mutual

theorem keeps_declareType (builds : p.Builds) {unit : UnitId} {enclosing : Option BindingId}
    {qualified package : String} (decl : TypeDecl) :
    Keeps p (declareType unit enclosing qualified package decl) := by
  match decl with
  | ⟨_, _, _, _, _, _, _, _, _, memberTypes, _, _, _, _⟩ =>
    rw [declareType]
    refine keeps_addBinding_bind (fun _ => builds) fun b => ?_
    refine .apart_bind (g := (·.unmiss qualified)) (fun _ _ => rfl) (fun _ => rfl) ?_ fun _ h => h
    refine .apart_bind (g := (·.bindName qualified b)) (fun _ _ => rfl) (fun _ => rfl) ?_
      fun _ h => h
    refine keeps_attachModels_bind rfl ?_
    exact (keeps_declareMembers builds memberTypes).bind fun _ => .pure

theorem keeps_declareMembers (builds : p.Builds) {unit : UnitId} {outer : BindingId}
    {qualified package : String} {seen : List String} (decls : List TypeDecl) :
    Keeps p (declareMembers unit outer qualified package seen decls) := by
  match decls with
  | [] => exact .pure
  | decl :: rest =>
    rw [declareMembers]
    refine .ite (keeps_reportInUnit.bind fun _ => keeps_declareMembers builds rest) ?_
    exact (keeps_declareType builds decl).discard.bind fun _ => keeps_declareMembers builds rest

end

theorem keeps_isDeclared {qualified : String} : Keeps p (isDeclared qualified) :=
  .get_bind (fun _ _ => rfl) fun _ _ => .pure

theorem keeps_buildRegularUnit (builds : p.Builds) {unit : UnitId} {u : UnitDecl} :
    Keeps p (buildRegularUnit unit u) := by
  refine .filterMapM fun decl _ => ?_
  extract_lets qualified declare
  have declared : ∀ r, Keeps p (declare r) := by
    refine fun _ => keeps_isDeclared.bind fun _ => ?_
    refine .ite (keeps_reportInUnit.bind fun _ => .pure) ?_
    exact (keeps_declareType builds decl).bind fun _ => .pure
  exact .ite (keeps_reportInUnit.bind declared) (declared ())

theorem keeps_buildRoles (builds : p.Builds) {unit : UnitId} {u : UnitDecl} {team : BindingId} :
    Keeps p (buildRoles unit u team) := by
  refine .filterMapM fun decl _ => .get_bind (fun _ _ => rfl) fun _ _ =>
    keeps_isDeclared.bind fun _ => ?_
  refine .ite (keeps_reportInUnit.bind fun _ => .pure) ?_
  exact (keeps_declareType builds decl).bind fun _ => .pure

theorem keeps_buildRoleFile (builds : p.Builds) {unit : UnitId} {u : UnitDecl} {teamName : String} :
    Keeps p (buildRoleFile unit u teamName) := by
  refine Keeps.ask.bind fun _ => .get_bind (fun _ _ => rfl) fun _ _ => ?_
  split
  · exact keeps_reportInUnit.bind fun _ => .pure
  · next team _ =>
    extract_lets build
    have built : ∀ r, Keeps p (build r) := by
      refine fun _ => (keeps_buildRoles builds).bind fun roles => .bind ?_ fun _ => .pure
      exact .modify (g := (·.addRoleFile team unit roles)) fun _ _ => p.roleFile builds
    exact .ite (built ()) (keeps_reportInUnit.bind built)

theorem keeps_newUnits (builds : p.Builds) {units : Env → Array SourceUnit}
    (same : ∀ e r, units (e.under r) = units e) :
    Keeps p (modify fun e => { e with units := units e }) :=
  .modify fun _ _ => p.apart (Env.apart_units same) (.inr builds) (.inl fun _ => rfl)

theorem keeps_buildUnit (builds : p.Builds) {u : UnitDecl} : Keeps p (buildUnit u) := by
  refine .get_bind (fun _ _ => rfl) fun _ _ => ?_
  refine .bind (keeps_newUnits builds fun _ _ => rfl) fun _ => ?_
  extract_lets finish
  have finished : ∀ types, Keeps p (finish types) := fun _ =>
    .get_bind (fun _ _ => rfl) fun _ _ => .bind (keeps_newUnits builds fun _ _ => rfl) fun _ => .pure
  split
  · exact (keeps_buildRoleFile builds).bind finished
  · exact (keeps_buildRegularUnit builds).bind finished

theorem keeps_addUnit (builds : p.Builds) {u : UnitDecl} : Keeps p (addUnit u) := by
  refine (keeps_buildUnit builds).bind fun unit => .bind ?_ fun _ => .pure
  have apart : Env.Apart fun e => { e with added := e.added ++ [unit] } :=
    ⟨fun _ _ => rfl, fun _ => rfl, fun _ => rfl, fun _ => rfl⟩
  exact .modify fun _ _ => p.apart apart (.inr builds) (.inl fun _ => rfl)

theorem keeps_addUnits (builds : p.Builds) {units : List UnitDecl} : Keeps p (addUnits units) :=
  .mapM fun _ _ => keeps_addUnit builds

theorem keeps_checkPackageCollisions : Keeps p checkPackageCollisions :=
  .get_bind (fun _ _ => rfl) fun _ _ => .forM fun _ _ => .ite .pure keeps_reportFor

theorem mem_foldl_add {α : Type} [BEq α] [LawfulBEq α] {a : α} {l acc : List α}
    (h : a ∈ acc ∨ a ∈ l) :
    a ∈ l.foldl (fun acc x => if acc.contains x then acc else acc ++ [x]) acc := by
  induction l generalizing acc with
  | nil => simpa using h
  | cons x l ih =>
    refine ih ?_
    by_cases known : acc.contains x <;> grind

theorem keeps_memberTypes {b : BindingId} : Keeps p (memberTypes b) := by
  refine keeps_known_bind fun x _ => ?_
  split
  · exact .pure
  · exact keeps_reentrant
  · refine (keeps_updateBinding .beginMemberTypes).bind fun _ => ?_
    refine .get_bind (fun _ _ => rfl) fun e _ => ?_
    extract_lets finish
    have finished : ∀ own, Keeps p (finish own) := by
      refine fun own => (KeepsFrom.get_bind (fun _ _ => rfl) fun e _ _ => ?_).keeps
      refine .modify_bind (Q := fun _ => True) (fun d d' here pairs => ?_) Keeps.pure.under
        fun _ _ => trivial
      refine p.members pairs fun model team role hr => mem_foldl_add (.inr ?_)
      rw [← here, team]
      exact hr
    split
    · exact .get_bind (fun _ _ => rfl) fun _ _ => .bind .pure finished
    · exact .bind (.filterMapM fun _ _ => .ask) finished
    · exact .bind .pure finished

theorem keeps_above {b : BindingId} : Keeps p (above b) := Keeps.ask.bind fun _ => .pure

theorem keeps_superclassOf {b : BindingId} : Keeps p (superclassOf b) := Keeps.ask.bind fun _ => .pure

theorem keeps_reaches {b target : BindingId} : Keeps p (reaches b target) :=
  keeps_walk (fun _ => keeps_above) _ _ fun _ _ => .pure

theorem keeps_findMemberType {b : BindingId} {simple : String} :
    Keeps p (findMemberType b simple) := by
  refine keeps_walk (fun _ => keeps_above) _ _ fun _ _ => ?_
  refine keeps_memberTypes.bind fun _ => .get_bind (fun _ _ => rfl) fun _ _ => ?_
  split
  · exact .pure
  · exact .pure

theorem keeps_findMethods {b : BindingId} {name : String} : Keeps p (findMethods b name) := by
  refine keeps_walk (fun _ => keeps_above) _ _ fun _ _ => Keeps.ask.bind fun _ => ?_
  refine .get_bind (fun _ _ => ?_) fun _ _ => .pure
  simp only [Env.sameParameters_under, Env.method_under]

theorem keeps_methodsInProgress {b : BindingId} : Keeps p (methodsInProgress b) :=
  keeps_walk (fun _ => keeps_above) _ _ fun _ _ => .get_bind (fun _ _ => rfl) fun _ _ => .pure

theorem keeps_findField {b : BindingId} {name : String} : Keeps p (findField b name) := by
  refine keeps_walk (fun _ => keeps_above) _ _ fun _ _ => ?_
  refine Keeps.ask.bind fun _ => .get_bind (fun _ _ => rfl) fun _ _ => ?_
  split
  · exact .pure
  · exact .pure

end TeamRoles.Resolve
