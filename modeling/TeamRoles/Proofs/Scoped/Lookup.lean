import TeamRoles.Lookup.Signature
import TeamRoles.Lookup.TypeSpec
import TeamRoles.Lookup.Units
import TeamRoles.Proofs.Lawful.Lookup
import TeamRoles.Proofs.Scoped.Rules

/-!
Look-ups give types that are there, and types whose erasure rests on such.
-/

namespace TeamRoles

/-- What a name means is there, if it means one type. -/
def Meaning.Fits (e : Env) : Meaning → Prop
  | .found b => e.HasType b
  | _ => True

structure Site.Fits (e : Env) (site : Site) : Prop where
  membersOf : ∀ b ∈ site.membersOf, e.HasType b
  methodVars : ∀ v ∈ site.methodVars, e.HasVar v

theorem Site.Fits.mono {e d : Env} {site : Site} (h : site.Fits e) (le : e.Develops d) : site.Fits d :=
  ⟨fun b hb => le.hasType (h.membersOf b hb), fun v hv => le.hasVar (h.methodVars v hv)⟩

namespace Env

variable {e : Env} {b : BindingId} {x : Binding}

theorem fits_of_bare (bare : x.bare = x) (team : x.team = none) (enclosing : ∀ b ∈ x.enclosing, e.HasType b) :
    e.Fits x := by
  constructor
  · exact enclosing
  · rw [team]
    nofun
  all_goals
    intro list resolved
    rw [← bare] at resolved
    cases resolved

theorem Scoped.mem_outerFrom (h : e.Scoped) {fuel : Nat} {seen : List BindingId} {next : Option BindingId}
    (start : ∀ b ∈ next, e.HasType b) : ∀ b ∈ e.outerFrom fuel seen next, e.HasType b := by
  fun_induction outerFrom e fuel seen next with
  | case1 => exact List.forall_mem_nil _
  | case2 seen fuel b new ih =>
    exact List.forall_mem_cons.2 ⟨start b rfl, ih (h.bindings b).enclosing⟩
  | case3 => exact List.forall_mem_nil _

theorem Scoped.mem_enclosingChain (h : e.Scoped) (start : e.HasType b) :
    ∀ t ∈ e.enclosingChain b, e.HasType t :=
  List.forall_mem_cons.2 ⟨start, h.mem_outerFrom (h.bindings b).enclosing⟩

end Env

namespace Resolve

variable {e : Env}

theorem calm_attachModels {b : BindingId} : Calm (attachModels b) := by
  refine .bind .get fun d => calm_updateBinding fun e => ⟨fun _ => rfl, fun d x _ fits => ?_, fun _ _ => id⟩
  refine { fits with roles := fun model given => ?_ }
  have made : (if x.isTeam then some {} else none) = some model := given
  split at made
  · cases made
    nofun
  · cases made

theorem calm_reportLimitation {b : BindingId} {d : Descriptor} : Calm (reportLimitation b d) := by
  unfold reportLimitation
  split
  · exact calm_reportFor
  · exact calm_reportFor
  · exact .pure

theorem addDescriptor_from {d : Descriptor} : From e (addDescriptor d) fun b e => e.HasType b := by
  unfold addDescriptor
  extract_lets isTeam add
  have added (enclosing : Option BindingId) (e : Env) (known : ∀ b ∈ enclosing, e.HasType b) :
      From e (add enclosing) fun b e => e.HasType b := by
    refine .get_bind fun c le => ?_
    split
    · next b found => exact .pure fun _ hc => hc.hasType (le.closed.byName _ (Env.mem_of_lookup found))
    · refine (addBinding_from (Env.fits_of_bare rfl rfl fun b hb => le.hasType (known b hb)) ?_).bind
        fun b c _ inside => ?_
      · rintro _ ⟨⟩
      refine (bindName_from inside).bind fun _ c' hc _ => .after calm_attachModels fun _ c'' hc' => ?_
      refine .after calm_reportLimitation fun _ _ hc'' => .pure fun _ last => ?_
      exact (hc.trans (hc'.trans (hc''.trans last))).hasType inside
  split
  · split
    · exact .pure_bind (added none e nofun)
    · exact ask_findType.bind fun enclosing d _ known => added enclosing d known
  · exact .pure_bind (added none e nofun)

theorem calm_findType {name : String} : Calm (findType name) := by
  refine From.calm (Q := fun _ _ => True) fun e => .get_bind fun d _ => ?_
  split
  · exact Calm.pure d
  · refine .ite (fun _ => Calm.pure d) fun _ => ?_
    split
    · refine addDescriptor_from.bind fun b c _ inside => .get_bind fun c' hc => ?_
      refine .ite (fun _ => ?_) fun _ => Calm.pure c'
      exact (bindName_from (hc.hasType inside)).bind fun _ c _ _ => Calm.pure c
    · refine Calm.bind (.quiet ?_) (fun _ => .pure) d
      exact fun _ => rfl
    · refine problemBinding_from.bind fun b c _ inside => (bindName_from inside).bind fun _ c _ _ => ?_
      exact (Calm.bind calm_reportFor fun _ => .pure) c

theorem findProper_from {name : String} : From e (findProper name) fun found d => ∀ b ∈ found, d.HasType b := by
  refine ask_findType.bind fun found d _ known => .get_bind fun c hc => .pure fun c' hc' b hb => ?_
  exact (hc.trans hc').hasType (known b (Option.mem_filter_iff.1 hb |>.1))

theorem importedType_from {name : String} : From e (importedType name) fun found d => ∀ b ∈ found, d.HasType b :=
  .findSomeM? (fun _ _ => findProper_from) lasting_hasType

theorem reportImport_from {unit : UnitId} {p : ProblemId} {i : ImportDecl} {sofar : Imports}
    (known : e.HasImports sofar) :
    From e (do reportInUnit unit p i.span [i.name]; return sofar) fun i d => d.HasImports i :=
  .after calm_reportInUnit fun _ _ le => .pure fun _ hc => (le.trans hc).widens.hasImports known

theorem resolveOnDemand_from {unit : UnitId} {i : ImportDecl} {sofar : Imports} (known : e.HasImports sofar) :
    From e (resolveOnDemand unit i sofar) fun i d => d.HasImports i := by
  refine .get_bind fun d le => .ite (fun _ => .pure fun _ hc => ?_) fun _ => importedType_from.bind fun found c hc _ => ?_
  · obtain ⟨single, base⟩ := (le.trans hc).widens.hasImports known
    exact ⟨single, base⟩
  · have known := (le.trans hc).widens.hasImports known
    cases found with
    | some owner =>
      refine .pure fun _ hc => ?_
      obtain ⟨single, base⟩ := hc.widens.hasImports known
      exact ⟨single, base⟩
    | none => exact reportImport_from known

theorem importSingle_from {unit : UnitId} {i : ImportDecl} {target : BindingId} {sofar : Imports}
    (inside : e.HasType target) (known : e.HasImports sofar) :
    From e (importSingle unit i target sofar) fun i d => d.HasImports i := by
  refine .get_bind fun d le => ?_
  have known := le.widens.hasImports known
  have kept : From d (pure sofar) fun i d => d.HasImports i := .pure fun _ hc => hc.widens.hasImports known
  split
  · extract_lets simple
    split
    · exact .ite (fun _ => reportImport_from known) fun _ => kept
    · split
      · exact .ite (fun _ => reportImport_from known) fun _ => kept
      · refine .pure fun _ hc => ?_
        obtain ⟨single, base⟩ := hc.widens.hasImports known
        exact ⟨List.forall_mem_cons.2 ⟨(le.trans hc).hasType inside, single⟩, base⟩
  · exact reportImport_from known

theorem resolveSingle_from {unit : UnitId} {i : ImportDecl} {sofar : Imports} (known : e.HasImports sofar) :
    From e (resolveSingle unit i sofar) fun i d => d.HasImports i := by
  refine importedType_from.bind fun found d le inside => ?_
  have known := le.widens.hasImports known
  have kept (d : Env) (le : e.Develops d) (known : d.HasImports sofar) :
      From d (pure sofar) fun i d => d.HasImports i := .pure fun _ hc => hc.widens.hasImports known
  cases found with
  | none => exact .get_bind fun c hc => reportImport_from (hc.widens.hasImports known)
  | some target =>
    refine .ite (fun _ => kept d le known) fun _ => .get_bind fun c hc => ?_
    have inside := hc.hasType (inside target rfl)
    have known := hc.widens.hasImports known
    refine .ite (fun _ => reportImport_from known) fun _ => .ite (fun _ => .pure fun _ hc => ?_) fun _ =>
      importSingle_from inside known
    obtain ⟨single, base⟩ := hc.widens.hasImports known
    refine ⟨single, fun b hb => ?_⟩
    rcases List.mem_append.1 hb with old | new
    · exact base b old
    · rw [List.mem_singleton.1 new]
      exact hc.hasType inside

theorem resolveImport_from {unit : UnitId} {i : ImportDecl} {sofar : Imports} (known : e.HasImports sofar) :
    From e (resolveImport unit i sofar) fun i d => d.HasImports i := by
  refine .after (calm_updateUnit (fun _ => rfl) fun _ => rfl) fun _ d le => .get_bind fun c hc => ?_
  have known := (le.trans hc).widens.hasImports known
  refine .ite (fun _ => reportImport_from known) fun _ => ?_
  exact .ite (fun _ => resolveOnDemand_from known) fun _ => resolveSingle_from known

theorem resolveImports_from {unit : UnitId} {seen : List ImportDecl} {sofar : Imports} {l : List ImportDecl}
    (known : e.HasImports sofar) : From e (resolveImports unit seen sofar l) fun i d => d.HasImports i := by
  induction l generalizing seen sofar e with
  | nil => exact .pure fun _ le => le.widens.hasImports known
  | cons i l ih =>
    rw [resolveImports]
    refine .ite (fun _ => .after calm_reportInUnit fun _ _ le => ih (le.widens.hasImports known)) fun _ => ?_
    exact (resolveImport_from known).bind fun _ _ _ known => ih known

theorem imports_from {unit : UnitId} : From e (imports unit) fun i d => d.HasImports i := by
  refine knownUnit_from.bind fun u d _ fits => ?_
  split
  · next resolved => exact .pure fun _ hc => hc.widens.hasImports (fits.imports _ resolved)
  · exact .throw
  · refine (updateUnit_from ?_).bind fun _ c _ _ => ?_
    · exact fun _ _ _ fits => ⟨fits.types, nofun⟩
    refine (resolveImports_from Env.hasImports_empty).bind fun i c' _ known => (updateUnit_from ?_).bind fun _ _ le _ =>
      .pure fun _ hc => (le.trans hc).widens.hasImports known
    intro d x le fits
    refine ⟨fits.types, ?_⟩
    rintro _ ⟨⟩
    exact le.widens.hasImports known

theorem calm_imports {unit : UnitId} : Calm (imports unit) := From.calm fun _ => imports_from

theorem calm_verifyBaseImports {unit : UnitId} : Calm (verifyBaseImports unit) := by
  refine .bind .get fun _ => .ite .pure (.bind (calm_updateUnit (fun _ => rfl) fun _ => rfl) fun _ => ?_)
  refine .bind calm_imports fun imports => .ite .pure (.bind .get fun e => ?_)
  refine .bind (.filterMapM fun role => .bind (.ask _) fun _ => .pure) fun bound => ?_
  exact .forM fun i => .ite .pure (.bind .get fun _ => calm_reportInUnit)

theorem memberTypes_from {b : BindingId} : From e (memberTypes b) fun members d => ∀ m ∈ members, d.HasType m := by
  refine known_from.bind fun x d _ ⟨_, fits⟩ => ?_
  split
  · next list resolved => exact .pure fun _ hc m hm => hc.hasType (fits.memberTypes list resolved m hm)
  · exact reentrant_from
  · refine (updateBinding_from ?_).bind fun _ c _ _ => .get_bind fun c hc => ?_
    · exact ⟨fun _ => rfl, fun _ _ _ fits => { fits with memberTypes := nofun }, fun _ _ => id⟩
    extract_lets finish
    have finished (own : List BindingId) (e : Env) (known : ∀ m ∈ own, e.HasType m) :
        From e (finish own) fun members d => ∀ m ∈ members, d.HasType m := by
      refine .get_bind fun d le => ?_
      extract_lets fromFiles list
      have inside : ∀ m ∈ list, d.HasType m := by
        intro m hm
        rcases mem_of_mem_foldl_add hm with own | fromFile
        · exact le.hasType (known m own)
        · cases team : (d.binding b).team with
          | none => simp [fromFiles, team] at fromFile
          | some model => exact (le.closed.bindings b).roles model team m (by simpa [fromFiles, team] using fromFile)
      refine (updateBinding_from ?_).bind fun _ _ hc _ =>
        .pure fun _ hc' m hm => (hc.trans hc').hasType (inside m hm)
      refine ⟨fun _ => rfl, fun d x le fits => { fits with memberTypes := ?_ }, fun _ _ => id⟩
      rintro _ ⟨⟩ m hm
      exact le.hasType (inside m hm)
    split
    · refine .get_bind fun d le => .pure_bind (finished _ d fun m hm => ?_)
      obtain ⟨name, bound⟩ := bound_of_mem_declaredMemberTypes hm
      exact le.closed.byName _ bound
    · exact (From.filterMapM (fun _ _ => ask_findType) lasting_hasType).bind fun own d _ => finished own d
    · exact .pure_bind (finished [] c nofun)

theorem calm_memberTypes {b : BindingId} : Calm (memberTypes b) := From.calm fun _ => memberTypes_from

theorem calm_above {b : BindingId} : Calm (above b) := .bind (.ask _) fun _ => .pure

theorem calm_superclassOf {b : BindingId} : Calm (superclassOf b) := .bind (.ask _) fun _ => .pure

theorem calm_reaches {b target : BindingId} : Calm (reaches b target) :=
  calm_walk (fun _ => calm_above) _ _ fun _ _ => .pure

theorem findMemberType_from {b : BindingId} {simple : String} :
    From e (findMemberType b simple) fun found d => ∀ m ∈ found, d.HasType m := by
  refine .walk (I := fun found d => ∀ m ∈ found, d.HasType m) (fun _ => calm_above) (fun _ _ _ _ _ => ?_)
    (fun found _ _ le h m hm => le.hasType (h m hm)) nofun
  refine memberTypes_from.bind fun members d _ known => .get_bind fun c hc => ?_
  split
  · next m found =>
    refine .pure fun _ hc' _ same => ?_
    cases same
    exact (hc.trans hc').hasType (known m (List.mem_of_find?_eq_some found))
  · exact .pure fun _ _ => nofun

theorem calm_findMemberType {b : BindingId} {simple : String} : Calm (findMemberType b simple) :=
  From.calm fun _ => findMemberType_from

theorem findMethods_from {b : BindingId} {name : String} :
    From e (findMethods b name) fun found d => ∀ m ∈ found, d.HasMethod m := by
  refine .walk (I := fun found d => ∀ m ∈ found, d.HasMethod m) (fun _ => calm_above) (fun found _ d _ old => ?_)
    (fun found _ _ le h m hm => le.hasMethod (h m hm)) nofun
  refine ask_methods.bind fun methods c hc new => .get_bind fun c' hc' => .pure fun c'' hc'' => ?_
  have le := hc'.trans hc''
  dsimp only [Visit.found]
  refine List.foldlRecOn (motive := fun found => ∀ m ∈ found, c''.HasMethod m) methods _
    (fun m hm => (hc.trans le).hasMethod (old m hm)) fun found known m hm => ?_
  split
  · exact known
  · exact List.forall_mem_append.2 ⟨known, List.forall_mem_singleton.2 (le.hasMethod (new m hm))⟩

theorem calm_findMethods {b : BindingId} {name : String} : Calm (findMethods b name) :=
  From.calm fun _ => findMethods_from

theorem calm_methodsInProgress {b : BindingId} : Calm (methodsInProgress b) :=
  calm_walk (fun _ => calm_above) _ _ fun _ _ => .bind .get fun _ => .pure

theorem findField_from {b : BindingId} {name : String} :
    From e (findField b name) fun found d => ∀ f ∈ found, d.HasField f := by
  refine .walk (I := fun found d => ∀ f ∈ found, d.HasField f) (fun _ => calm_above) (fun _ _ _ _ _ => ?_)
    (fun found _ _ le h f hf => le.fields f (h f hf)) nofun
  refine ask_fields.bind fun fields d _ known => .get_bind fun c hc => ?_
  split
  · next f found =>
    refine .pure fun _ hc' _ same => ?_
    cases same
    exact (hc.trans hc').fields f (known f (List.mem_of_find?_eq_some found))
  · exact .pure fun _ _ => nofun

theorem calm_findField {b : BindingId} {name : String} : Calm (findField b name) :=
  From.calm fun _ => findField_from

end Resolve

end TeamRoles
