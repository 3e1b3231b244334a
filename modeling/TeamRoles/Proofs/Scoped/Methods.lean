import TeamRoles.Proofs.Lawful.Surrogates
import TeamRoles.Proofs.Scoped.Generics

/-!
The methods of a type are made with parameters that are in scope, and no two that are written in it have the
same name and the same erased parameters. Those that it inherits by copies are compared with what is there.
-/

namespace TeamRoles

structure Env.Gathered (e : Env) (list : List MethodId) : Prop where
  closed : e.Scoped
  known : ∀ m ∈ list, e.HasMethod m
  distinct : e.Distinct list

namespace Env.Gathered

variable {e d : Env} {list : List MethodId} {m : MethodId}

theorem nil (closed : e.Scoped) : e.Gathered [] := ⟨closed, nofun, .nil⟩

theorem mono (h : e.Gathered list) (le : e.Develops d) : d.Gathered list :=
  ⟨le.closed, fun m hm => le.hasMethod (h.known m hm), le.distinct h.closed h.known h.distinct⟩

theorem append (h : e.Gathered list) (known : e.HasMethod m)
    (differ : (e.method m).isSource = true → ∀ n ∈ list, (e.method n).name = (e.method m).name →
      e.erasedParams n ≠ e.erasedParams m) : e.Gathered (list ++ [m]) where
  closed := h.closed
  known := List.forall_mem_append.2 ⟨h.known, List.forall_mem_singleton.2 known⟩
  distinct := by
    refine List.pairwise_append.2 ⟨h.distinct, List.pairwise_singleton _ _, fun n hn => ?_⟩
    exact List.forall_mem_singleton.2 fun written same => differ written n hn same

theorem append_made (h : e.Gathered list) (known : e.HasMethod m) (made : (e.method m).isSource = false) :
    e.Gathered (list ++ [m]) :=
  h.append known fun written => absurd (made.symm.trans written) Bool.false_ne_true

theorem of_made (closed : e.Scoped) (h : ∀ m ∈ list, e.HasMethod m ∧ (e.method m).isSource = false) :
    e.Gathered list where
  closed := closed
  known m hm := (h m hm).1
  distinct := by
    refine List.pairwise_of_forall_mem_list fun m _ n hn written => ?_
    exact absurd ((h n hn).2.symm.trans written) Bool.false_ne_true

end Env.Gathered

namespace Resolve

variable {e : Env} {b role : BindingId} {list : List MethodId}

theorem lasting_gathered (list : List MethodId) : Lasting fun e => e.Gathered list := fun _ _ le h => h.mono le

theorem gathered_from (h : e.Gathered list) : From e (pure list) fun list d => d.Gathered list :=
  .pure fun _ le => h.mono le

theorem declareMethod_from {unit : UnitId} {decl : MethodDecl} (inside : e.HasType b) (h : e.Gathered list) :
    From e (declareMethod b unit list decl) fun list d => d.Gathered list := by
  have fits (vars : List TypeVarId) (d : Env) (le : e.Develops d) (known : ∀ v ∈ vars, d.HasVar v) :
      Site.Fits d { Site.body b unit decl.span with methodVars := vars } :=
    ⟨fun _ same => Option.mem_some.1 same ▸ le.hasType inside, known⟩
  refine From.bounded (g := fun vars =>
    declaredBounds { Site.body b unit decl.span with methodVars := vars } decl.typeParams) (fun vars d le => ?_)
    fun vars d le known => ?_
  · exact declaredBounds_bounding fun c hc known => fits vars c (le.trans hc) known
  have fits := fits vars d le known
  refine (typesOfSpecs_from fits).bind fun params c hc rooted => ?_
  extract_lets _ written finish
  have finished (ret : Ty) (c' : Env) (hc' : c.Develops c') :
      From c' (finish ret) fun list d => d.Gathered list := by
    refine (typesOfSpecs_from (fits.mono (hc.trans hc'))).bind fun _ c₁ h₁ _ => .get_bind fun c₂ h₂ => ?_
    have rooted := lasting_types params (hc'.trans (h₁.trans h₂)) rooted
    refine (newMethod_from rooted).bind fun m c₃ h₃ ⟨made, name, _⟩ => .get_bind fun c₄ h₄ => ?_
    have gathered := h.mono (le.trans (hc.trans (hc'.trans (h₁.trans (h₂.trans (h₃.trans h₄))))))
    refine .ite (fun _ => ?_) fun new => gathered_from (gathered.append (h₄.hasMethod made) fun _ n hn same => ?_)
    · exact .after calm_reportInUnit fun _ _ last => gathered_from (gathered.mono last)
    · have name : (c₄.method m).name = decl.name :=
        (h₄.proj_eq (g := Method.name) made.inside fun _ => rfl).trans name
      refine fun erased => new (List.any_eq_true.2 ⟨n, hn, ?_⟩)
      simp [same, name, Env.sameParameters_eq_true_iff, erased]
  split
  · exact (typeOfSpec_from (fits.mono hc) _).bind fun ret c' hc' _ => finished ret c' hc'
  · exact .pure_bind (finished _ c (.refl hc.closed))

theorem calloutSignature_from {callout : CalloutDecl} :
    From e (calloutSignature role callout) fun found d => ∀ type ∈ found, ∀ t ∈ type.params, d.Rooted t := by
  have none (e : Env) : From e (pure none : Resolve (Option MethodType)) fun found d =>
      ∀ type ∈ found, ∀ t ∈ type.params, d.Rooted t := .pure fun _ _ => nofun
  refine .after (.ask _) fun base d _ => ?_
  split
  · exact none d
  · split
    · refine .after calm_methodsInProgress fun _ c _ => .ite (fun _ => ?_) fun _ => ?_
      · exact .after calm_reportFor fun _ c _ => none c
      · refine findMethods_from.bind fun found c _ known => ?_
        split
        · refine .get_bind fun c hc => .pure fun _ last type same => ?_
          cases same
          exact lasting_types _ last (hc.hasMethod (known _ List.mem_cons_self)).params
        · exact none c
    all_goals
      refine findField_from.bind fun found c _ known => ?_
      cases found with
      | none => exact none c
      | some field =>
        refine (ask_fieldType (known field rfl)).bind fun t c _ rooted => .pure fun _ hc type same => ?_
        have rooted := hc.rooted rooted
        cases same
        split <;> simp [rooted]

theorem shortCalloutType_from {unit : UnitId} {callout : CalloutDecl} (inside : e.HasType role) :
    From e (shortCalloutType role unit callout) fun found d => ∀ type ∈ found, ∀ t ∈ type.params, d.Rooted t := by
  unfold shortCalloutType
  extract_lets site complete
  have fits : site.Fits e := Site.fits_body inside
  have completed (params : Option (List Ty)) (d : Env) (le : e.Develops d)
      (rooted : ∀ ts ∈ params, ∀ t ∈ ts, d.Rooted t) :
      From d (complete params) fun found d => ∀ type ∈ found, ∀ t ∈ type.params, d.Rooted t := by
    dsimp -zeta only [complete]
    extract_lets finish
    have finished (ret : Option Ty) (c : Env) (hc : d.Develops c) :
        From c (finish ret) fun found d => ∀ type ∈ found, ∀ t ∈ type.params, d.Rooted t := by
      have rooted (ts : List Ty) (hts : ts ∈ params) := lasting_types ts hc (rooted ts hts)
      dsimp only [finish]
      split
      · refine .pure fun _ last type same => ?_
        cases same
        exact lasting_types _ last (rooted _ rfl)
      · refine calloutSignature_from.bind fun base c' hc' known => ?_
        cases base with
        | none => exact .pure fun _ _ => nofun
        | some base =>
          refine .pure fun _ last type same => ?_
          cases same
          cases params with
          | none => exact lasting_types _ last (known base rfl)
          | some ts => exact lasting_types _ (hc'.trans last) (rooted ts rfl)
    split
    · next spec _ =>
      have typed : From d (some <$> typeOfSpec site spec) fun _ _ => True :=
        (typeOfSpec_from (fits.mono le) spec).bind fun _ _ _ _ => .pure fun _ _ => trivial
      exact typed.bind fun ret c hc _ => finished ret c hc
    · exact .pure_bind (finished _ d (.refl le.closed))
  split
  · next specs _ =>
    have typed : From e (some <$> typesOfSpecs site specs) fun params d =>
        ∀ ts ∈ params, ∀ t ∈ ts, d.Rooted t := by
      refine (typesOfSpecs_from fits).bind fun ts d _ rooted => .pure fun _ hc us same => ?_
      cases same
      exact lasting_types ts hc rooted
    exact typed.bind completed
  · exact From.bind (Q := fun params d => ∀ ts ∈ params, ∀ t ∈ ts, d.Rooted t) (.pure fun _ _ => nofun) completed

theorem appendMade_from {m : Method} (h : e.Gathered list) (params : ∀ t ∈ m.declared.params, e.Rooted t)
    (made : m.isSource = false) :
    From e (do return list ++ [← newMethod m]) fun list d => d.Gathered list := by
  refine (newMethod_from params).bind fun i d le ⟨known, _, origin⟩ => gathered_from ((h.mono le).append_made known ?_)
  rwa [Method.isSource, origin]

theorem addShortCallout_from {unit : UnitId} {callout : CalloutDecl} (inside : e.HasType b) (h : e.Gathered list) :
    From e (addShortCallout b unit list callout) fun list d => d.Gathered list := by
  refine .get_bind fun d le => .ite (fun _ => gathered_from (h.mono le)) fun _ => ?_
  refine (shortCalloutType_from (le.hasType inside)).bind fun found c hc rooted => ?_
  have h := h.mono (le.trans hc)
  cases found with
  | none => exact gathered_from h
  | some declared => exact appendMade_from h (rooted declared rfl) rfl

theorem declaredMethods_from {decl : TypeDecl} {unit : UnitId} (inside : e.HasType b) (h : e.Gathered []) :
    From e (declaredMethods b decl unit) fun list d => d.Gathered list := by
  refine (From.foldlM (fun _ _ _ d le h => declareMethod_from (le.hasType inside) h) lasting_gathered h).bind
    fun methods d le h => .get_bind fun c hc => ?_
  have inside := (le.trans hc).hasType inside
  refine .ite (fun _ => ?_) fun _ => gathered_from (h.mono hc)
  exact .foldlM (fun _ _ _ d le h => addShortCallout_from (le.hasType inside) h) lasting_gathered (h.mono hc)

theorem lasting_made (m : MethodId) : Lasting fun e => e.HasMethod m ∧ (e.method m).isSource = false := by
  rintro e d le ⟨known, made⟩
  exact ⟨le.hasMethod known, (le.proj_eq (g := Method.isSource) known.inside fun _ => rfl).trans made⟩

theorem compiledMethod_from {d : Descriptor} {member : Descriptor.Member} :
    From e (compiledMethod b d member) fun found d =>
      ∀ m ∈ found, d.HasMethod m ∧ (d.method m).isSource = false := by
  have none (e : Env) : From e (pure none : Resolve (Option MethodId)) fun found d =>
      ∀ m ∈ found, d.HasMethod m ∧ (d.method m).isSource = false := .pure fun _ _ => nofun
  refine .get_bind fun e _ => .ite (fun _ => ?_) fun _ => none e
  dsimp only
  split
  · exact .after calm_reportFor fun _ c _ => none c
  · next sig _ =>
    have fits (vars : List TypeVarId) (d : Env) (known : ∀ v ∈ vars, d.HasVar v) :
        SignatureScope.Fits d { owner := b, methodVars := vars } := known
    refine From.bounded (g := fun vars => signatureBounds { owner := b, methodVars := vars } sig.formals)
      (fun vars d _ => signatureBounds_bounding fun c _ known => fits vars c known) fun vars d _ known => ?_
    have fits := fits vars d known
    refine (typesOfSigs_from fits).bind fun params c hc rooted => ?_
    refine (typeOfSig_from (fits.mono hc) _).bind fun ret c₁ h₁ _ => ?_
    refine (typesOfSigs_from (fits.mono (hc.trans h₁))).bind fun _ c₂ h₂ _ => ?_
    refine (newMethod_from (lasting_types params (h₁.trans h₂) rooted)).bind fun m c₃ _ ⟨made, _, origin⟩ =>
      .pure fun last hl found same => ?_
    cases same
    exact lasting_made m hl ⟨made, by rw [Method.isSource, origin]⟩

theorem compiledMethods_from {d : Descriptor} :
    From e (d.methods.filterMapM (compiledMethod b d)) fun list d => d.Gathered list :=
  (From.filterMapM (fun _ _ => compiledMethod_from) lasting_made).post fun _ _ le made => .of_made le.closed made

theorem calm_recordOverride {own inherited : MethodId} {ret : Ty} : Calm (recordOverride own inherited ret) := by
  refine .bind (calm_updateMethod fun m => ?_) fun _ => .bind .get fun e => ?_
  · split <;> rfl
  extract_lets m check
  have checked (r : PUnit) : Calm (check r) := by
    refine .ite .pure (.bind (.ask _) fun _ => .ite .pure ?_)
    exact .bind .get fun _ => calm_reportFor
  exact .ite (.bind calm_reportFor checked) (checked ())

theorem copyMethod_from {team : BindingId} {inherited : MethodId} (h : e.Gathered list)
    (source : e.HasMethod inherited) :
    From e (copyMethod b team list inherited) fun list d => d.Gathered list := by
  refine .get_bind fun d le => .ite (fun _ => gathered_from (h.mono le)) fun _ => ?_
  refine (From.mapM (fun t ht => rebindType_from ((le.hasMethod source).params t ht)) lasting_rooted).bind
    fun params c hc rooted => .after calm_rebindType fun ret c₁ h₁ => .get_bind fun c₂ h₂ => ?_
  have h := h.mono (le.trans (hc.trans (h₁.trans h₂)))
  extract_lets existing
  clear_value existing
  cases existing with
  | some own =>
    refine .ite (fun _ => gathered_from h) fun _ => ?_
    exact .after calm_recordOverride fun _ _ hc => gathered_from (h.mono hc)
  | none => exact appendMade_from h (lasting_types params (h₁.trans h₂) rooted) rfl

theorem copyMethods_from (h : e.Gathered list) : From e (copyMethods b list) fun list d => d.Gathered list := by
  refine .after calm_teamOf fun team d le => .after calm_tsuperRoles fun roles c hc => ?_
  refine .foldlM (fun tsuper _ list d _ h => ?_) lasting_gathered (h.mono (le.trans hc))
  refine ask_methods.bind fun inherited c hc source => ?_
  refine .foldlM (fun m hm list d hd h => copyMethod_from h ?_) lasting_gathered (h.mono hc)
  exact hd.hasMethod (source m hm)

theorem calm_linkSurrogate {callin surrogate : MethodId} : Calm (linkSurrogate callin surrogate) := by
  refine .bind (calm_updateMethod fun _ => rfl) fun _ => .bind .get fun e => calm_updateMethod fun _ => rfl

theorem createSurrogate_from {callin : MethodId} (source : e.HasMethod callin) :
    From e (createSurrogate b callin) fun m d => d.HasMethod m ∧ (d.method m).isSource = false := by
  refine .get_bind fun d le => (newMethod_from (le.hasMethod source).woven).post fun m d _ ⟨known, _, origin⟩ => ?_
  exact ⟨known, by rw [Method.isSource, origin]⟩

theorem attachSurrogate_from {callin : MethodId} (h : e.Gathered list) (source : e.HasMethod callin) :
    From e (attachSurrogate b list callin) fun list d => d.Gathered list := by
  refine .get_bind fun d le => ?_
  split
  · exact .after calm_linkSurrogate fun _ _ hc => gathered_from (h.mono (le.trans hc))
  · refine (createSurrogate_from (le.hasMethod source)).bind fun m c hc made => ?_
    refine .after calm_linkSurrogate fun _ c' hc' => gathered_from ?_
    obtain ⟨known, written⟩ := lasting_made m hc' made
    exact (h.mono (le.trans (hc.trans hc'))).append_made known written

theorem attachSurrogates_from (h : e.Gathered list) :
    From e (attachSurrogates b list) fun list d => d.Gathered list := by
  refine .get_bind fun d le => ?_
  have h := h.mono le
  refine .foldlM (fun m hm list d hd h' => attachSurrogate_from h' ?_) lasting_gathered h
  exact hd.hasMethod (h.known m (List.mem_of_mem_filter hm))

theorem setMethods_from (h : e.Gathered list) :
    From e (updateBinding b ({ · with methods := .resolved list })) fun _ _ => True := by
  refine .modify fun d le => ?_
  have h := h.mono le
  refine le.closed.update rfl { le.closed.bindings b with methods := ?_ } ?_
  all_goals rintro _ ⟨⟩
  · exact h.known
  · exact .inr h.distinct

theorem calm_methods : Calm (methods b) := by
  refine From.calm (Q := fun _ _ => True) fun e => known_from.bind fun x d _ ⟨inside, _⟩ => ?_
  extract_lets finish attach complete
  have finished (list : List MethodId) (e : Env) (h : e.Gathered list) : From e (finish list) fun _ _ => True :=
    (setMethods_from h).bind fun _ _ _ _ => .pure fun _ _ => trivial
  have attached (list : List MethodId) (e : Env) (h : e.Gathered list) : From e (attach list) fun _ _ => True := by
    refine .ite (fun _ => ?_) fun _ => .pure_bind (finished list e h)
    exact (attachSurrogates_from h).bind fun list d _ => finished list d
  have completed (list : List MethodId) (e : Env) (h : e.Gathered list) :
      From e (complete list) fun _ _ => True := by
    refine .ite (fun _ => ?_) fun _ => .pure_bind (attached list e h)
    exact (copyMethods_from h).bind fun list d _ => attached list d
  split
  · exact Calm.pure d
  · exact reentrant_from
  · refine (updateBinding_from ?_).bind fun _ c hc _ => ?_
    · exact ⟨fun _ => rfl, fun _ _ _ fits => { fits with methods := nofun }, fun _ _ => nofun⟩
    have empty : c.Gathered [] := .nil hc.closed
    split
    · exact (declaredMethods_from (hc.hasType inside) empty).bind fun list d _ => completed list d
    · exact compiledMethods_from.bind fun list d _ => completed list d
    · exact .pure_bind (completed [] c empty)

end Resolve

end TeamRoles
