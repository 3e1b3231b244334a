import TeamRoles.Proofs.Lawful.Members

/-!
The methods that are written in a type, and those that a role inherits by copies. While they are collected
all of them are methods of the type, and no two methods of a source type have the same name and the same
parameters.
-/

namespace TeamRoles

theorem Env.sameErasures_self {e : Env} (ts : List Ty) : e.sameErasures ts ts = true := by
  have same (t : Ty) : e.sameErasure t t = true := by simp [sameErasure]
  induction ts with
  | nil => rfl
  | cons t ts ih => simpa [sameErasures, same] using ih

namespace Resolve

variable {ℓ : Nat}

theorem lawful_enhancingArgType {arg : EnhancingArg} : Lawful ℓ (enhancingArgType arg) := by
  cases arg with
  | baseArg => exact lawful_wellKnownType
  | teams => exact .bind lawful_wellKnownType fun _ => .pure
  | index => exact .pure
  | boundMethodId => exact .pure
  | callinIds => exact .pure
  | args => exact .bind lawful_objectType fun _ => .pure

theorem lawful_enhancingArgTypes : Lawful ℓ enhancingArgTypes :=
  .bind .get fun _ => .mapM fun _ => lawful_enhancingArgType

theorem lawful_enhance {declared : MethodType} : Lawful ℓ (enhance declared) := by
  refine .bind lawful_enhancingArgTypes fun _ => .ite .pure ?_
  exact .ite (.bind .pure fun _ => .pure) (.bind lawful_objectType fun _ => .pure)

theorem newMethod_triple {m : Method} {P : Env → Prop} {Q : MethodId → Env → Prop}
    (stable : Stable 0 P) (added : ∀ e enhanced, P e → e.MayAdd m ∧
      Q e.nextMethod (e.addMethod { m with enhanced })) :
    Triple (ℓ + 5) P (newMethod m) Q := by
  have add (enhanced : Option MethodType) : Triple (ℓ + 5) P (addMethod { m with enhanced }) Q := by
    refine addMethod_triple.pre fun e he => ?_
    obtain ⟨may, holds⟩ := added e enhanced he
    exact ⟨⟨may.pending, may.source, may.surrogate⟩, holds⟩
  exact .ite (Lawful.keepingAt 0 (Nat.zero_le _) lawful_enhance stable add)
    (Lawful.pure.keepingAt 0 (Nat.zero_le _) stable add)

structure Gathers (x : Binding) (b : BindingId) (list : List MethodId) (e : Env) : Prop where
  pending : e.slot (.methods b) = .inProgress
  inside : b.index < e.bindings.size
  head : (e.binding b).head = x.head
  listed : ∀ m ∈ list, e.Owns b m

/-- The methods that are written or inherited, as far as they have been collected. -/
structure Builds (x : Binding) (b : BindingId) (list : List MethodId) (e : Env) : Prop
    extends Gathers x b list e where
  plain : ∀ m ∈ list, (e.method m).isSurrogate = false
  distinct : x.isSource = true → list.Pairwise fun m n => ¬ (e.method m).Alike (e.method n)

variable {x : Binding} {b : BindingId} {list : List MethodId} {e e' : Env} {m : MethodId}

theorem Gathers.of_lasts (h : Gathers x b list e) (lasts : e.Lasts e') : Gathers x b list e' where
  pending := by rw [lasts.slots _ (by simp [h.pending]), h.pending]
  inside := Nat.lt_of_lt_of_le h.inside lasts.size
  head := (lasts.head b h.inside).trans h.head
  listed m mem := (h.listed m mem).of_lasts lasts.methods

theorem Gathers.append (h : Gathers x b list e) (owns : e.Owns b m) :
    Gathers x b (list ++ [m]) e :=
  { h with listed := by simpa [or_imp, forall_and] using ⟨h.listed, owns⟩ }

theorem Gathers.proj_eq {α : Type} {g : Method → α} (h : Gathers x b list e) (lasts : e.Lasts e')
    (mem : m ∈ list) (fixed : ∀ x, g (Method.fixed x) = g x) : g (e'.method m) = g (e.method m) :=
  lasts.methods.proj_eq (h.listed m mem).inside fixed

theorem Builds.of_lasts (h : Builds x b list e) (lasts : e.Lasts e') : Builds x b list e' where
  toGathers := h.toGathers.of_lasts lasts
  plain m mem := by
    rw [h.proj_eq (g := Method.isSurrogate) lasts mem fun _ => rfl]
    exact h.plain m mem
  distinct source := by
    refine (h.distinct source).imp_of_mem fun {m n} hm hn differ => ?_
    have name (n : MethodId) (hn : n ∈ list) := h.proj_eq (g := Method.name) lasts hn fun _ => rfl
    have declared (n : MethodId) (hn : n ∈ list) :=
      h.proj_eq (g := Method.declared) lasts hn fun _ => rfl
    rwa [Method.Alike, name m hm, name n hn, declared m hm, declared n hn]

theorem stable_builds : Stable ℓ (Builds x b list) := fun _ _ _ runs h => h.of_lasts runs.lasts

theorem Builds.append (h : Builds x b list e) (owns : e.Owns b m)
    (plain : (e.method m).isSurrogate = false)
    (new : x.isSource = true → ∀ n ∈ list, ¬ (e.method n).Alike (e.method m)) :
    Builds x b (list ++ [m]) e where
  toGathers := h.toGathers.append owns
  plain := by simpa [or_imp, forall_and] using ⟨h.plain, plain⟩
  distinct source := by
    refine List.pairwise_append.2 ⟨h.distinct source, List.pairwise_singleton _ _, ?_⟩
    simpa using new source

structure Made (b : BindingId) (x : Method) (m : MethodId) (e : Env) : Prop where
  owns : e.Owns b m
  name : (e.method m).name = x.name
  declared : (e.method m).declared = x.declared
  origin : (e.method m).origin = x.origin

theorem newMethod_made {y : Method} {P : Env → Prop} (stable : Stable 0 P)
    (grows : ∀ e z, e.Lasts (e.addMethod z) → P e → P (e.addMethod z))
    (pending : ∀ e, P e → e.slot (.methods b) = .inProgress) (owned : y.declaring = b)
    (proper : y.isInstance = false) (surrogate : y.surrogate = none)
    (source : ∀ e, P e → e.Linked → ∀ s, y.copySource = some s →
      e.IsSettled s ∧ (e.method s).name = y.name) :
    Triple (ℓ + 5) P (newMethod y) fun m e => P e ∧ Made b y m e := by
  subst owned
  refine newMethod_triple stable fun e enhanced he => ?_
  have open' (_ : y.isInstance = false) (list : List MethodId) :
      e.slot (.methods y.declaring) ≠ .resolved list := by
    rw [pending e he]
    nofun
  refine ⟨⟨open', source e he, surrogate⟩, grows e _ (.of_methods (.add open')) he,
    ⟨?_, ?_, ?_⟩, ?_, ?_, ?_⟩
  · simp [Env.nextMethod, Env.size_addMethod]
  all_goals rw [Env.method_addMethod_self]
  exact proper

theorem newMethod_builds {y : Method} {P : Env → Prop}
    (lasting : ∀ {e e' : Env}, e.Lasts e' → P e → P e') (builds : ∀ e, P e → Builds x b list e)
    (owned : y.declaring = b) (proper : y.isInstance = false) (surrogate : y.surrogate = none)
    (source : ∀ e, P e → e.Linked → ∀ s, y.copySource = some s →
      e.IsSettled s ∧ (e.method s).name = y.name) :
    Triple (ℓ + 5) P (newMethod y) fun m e => P e ∧ Made b y m e :=
  newMethod_made (fun _ _ _ runs => lasting runs.lasts) (fun _ _ => lasting)
    (fun e he => (builds e he).pending) owned proper surrogate source

theorem declareMethod_triple {unit : UnitId} {decl : MethodDecl} :
    Triple (ℓ + 5) (Builds x b list) (declareMethod b unit list decl) (Builds x b) := by
  refine Lawful.keeping lawful_addTypeVars stable_builds fun vars => ?_
  refine (lawful_setBounds lawful_declaredBounds).keeping stable_builds fun _ => ?_
  refine Lawful.keeping lawful_typesOfSpecs stable_builds fun params => ?_
  extract_lets site written finish
  have finished : ∀ ret, Triple (ℓ + 5) (Builds x b list) (finish ret) (Builds x b) := by
    refine fun ret => Lawful.keeping lawful_typesOfSpecs stable_builds fun _ => ?_
    refine Lawful.get.keeping stable_builds fun _ => ?_
    refine .bind (newMethod_builds (fun lasts h => h.of_lasts lasts) (fun _ => id) rfl rfl rfl
      fun _ _ _ => nofun)
      fun m => .get_bind fun e => ?_
    by_cases known : (list.any fun other =>
      (e.method other).name == decl.name && e.sameParameters other m) = true
    · rw [if_pos known]
      refine Triple.pre (P := Builds x b list) ?_ fun _ h => h.2.1
      exact Lawful.keeping lawful_reportInUnit stable_builds fun _ => .pure fun _ h => h
    · rw [if_neg known]
      refine .pure ?_
      rintro _ ⟨rfl, h, made⟩
      refine h.append made.owns (by simp [Method.isSurrogate, made.origin]) fun _ n hn alike => ?_
      refine known (List.any_eq_true.2 ⟨n, hn, ?_⟩)
      rw [Env.sameParameters, alike.2, Env.sameErasures_self, alike.1, made.name]
      simp
  split
  · exact (lawful_typeOfSpec _).keeping stable_builds finished
  · exact Lawful.pure.keeping stable_builds finished

theorem lawful_calloutSignature {role : BindingId} {callout : CalloutDecl} :
    Lawful (ℓ + 5) (calloutSignature role callout) := by
  refine (Lawful.ask _ (by simp)).bind fun base => ?_
  split
  · exact .pure
  · split
    · refine .bind lawful_methodsInProgress fun _ => .ite (.bind lawful_reportFor fun _ => .pure) ?_
      refine .bind lawful_findMethods fun found => ?_
      split
      · exact .bind .get fun _ => .pure
      · exact .pure
    all_goals
      refine .bind lawful_findField fun found => ?_
      cases found with
      | none => exact .pure
      | some f => exact (Lawful.ask _ (by simp)).bind fun _ => .pure

theorem lawful_shortCalloutType {role : BindingId} {unit : UnitId} {callout : CalloutDecl} :
    Lawful (ℓ + 5) (shortCalloutType role unit callout) := by
  unfold shortCalloutType
  extract_lets site complete
  have completed : ∀ params, Lawful (ℓ + 5) (complete params) := by
    intro params
    dsimp -zeta only [complete]
    extract_lets finish
    have finished : ∀ ret, Lawful (ℓ + 5) (finish ret) := by
      intro ret
      dsimp only [finish]
      split
      · exact .pure
      · refine .bind lawful_calloutSignature fun base => ?_
        cases base with
        | some base => exact .pure
        | none => exact .pure
    split
    · exact (lawful_typeOfSpec _).map.bind finished
    · exact .bind .pure finished
  split
  · exact .bind (.map lawful_typesOfSpecs) completed
  · exact .bind .pure completed

/-- The collected methods, none of which is like the one to come. -/
structure BuildsBut (x : Binding) (b : BindingId) (list : List MethodId) (name : String)
    (params : List Ty) (e : Env) : Prop extends Builds x b list e where
  unlike : ∀ m ∈ list, (e.method m).name = name → (e.method m).declared.params ≠ params

theorem BuildsBut.of_lasts {name : String} {params : List Ty} (h : BuildsBut x b list name params e)
    (lasts : e.Lasts e') : BuildsBut x b list name params e' := by
  refine ⟨h.toBuilds.of_lasts lasts, fun m mem => ?_⟩
  rw [h.proj_eq (g := Method.name) lasts mem fun _ => rfl,
    h.proj_eq (g := Method.declared) lasts mem fun _ => rfl]
  exact h.unlike m mem

theorem BuildsBut.append {y : Method} (h : BuildsBut x b list y.name y.declared.params e)
    (made : Made b y m e) (plain : y.isSurrogate = false) : Builds x b (list ++ [m]) e := by
  refine h.toBuilds.append made.owns ?_ fun _ n hn alike => ?_
  · rwa [Method.isSurrogate, made.origin]
  · rw [Method.Alike, made.name, made.declared] at alike
    exact h.unlike n hn alike.1 alike.2

theorem addShortCallout_triple {unit : UnitId} {callout : CalloutDecl} :
    Triple (ℓ + 5) (Builds x b list) (addShortCallout b unit list callout) (Builds x b) := by
  refine .get_bind fun e => ?_
  extract_lets name
  by_cases known : (list.any fun m => (e.method m).name == name) = true
  · rw [if_pos known]
    exact .pure fun _ h => h.2
  · rw [if_neg known]
    -- The name is looked for before the type of the callout is found, but no method changes its name.
    refine Triple.pre (P := fun e => ∀ params, BuildsBut x b list name params e) ?_ ?_
    · have stable : Stable (ℓ + 5) fun e => ∀ params, BuildsBut x b list name params e :=
        fun _ _ _ runs h params => (h params).of_lasts runs.lasts
      refine Lawful.keeping lawful_shortCalloutType stable fun declared => ?_
      cases declared with
      | none => exact .pure fun _ h => (h []).toBuilds
      | some declared =>
        refine Triple.pre (P := BuildsBut x b list name declared.params) ?_ fun _ h => h _
        refine .bind (newMethod_builds (fun lasts h => h.of_lasts lasts) (fun _ h => h.toBuilds) rfl rfl
          rfl fun _ _ _ => nofun) fun m => .pure ?_
        exact fun _ h => h.1.append h.2 rfl
    · rintro _ ⟨rfl, h⟩ params
      refine ⟨h, fun m mem same => (known (List.any_eq_true.2 ⟨m, mem, ?_⟩)).elim⟩
      simp [same]

theorem declaredMethods_triple {decl : TypeDecl} {unit : UnitId} :
    Triple (ℓ + 5) (Builds x b []) (declaredMethods b decl unit) (Builds x b) := by
  refine .bind (.foldlM_keeping fun _ _ _ => declareMethod_triple) fun methods => ?_
  refine Lawful.get.keeping stable_builds fun _ => .ite ?_ (.pure fun _ h => h)
  exact .foldlM_keeping fun _ _ _ => addShortCallout_triple

theorem compiledMethod_triple {d : Descriptor} {member : Descriptor.Member} :
    Triple (ℓ + 5) (Builds x b []) (compiledMethod b d member) fun found e =>
      Builds x b [] e ∧ ∀ m ∈ found, e.Owns b m ∧ (e.method m).isSurrogate = false := by
  have none (e : Env) (h : Builds x b [] e) : Builds x b [] e ∧
      ∀ m ∈ (none : Option MethodId), e.Owns b m ∧ (e.method m).isSurrogate = false := ⟨h, nofun⟩
  refine Lawful.get.keeping stable_builds fun e => .ite ?_ (.pure none)
  dsimp only
  split
  · exact Lawful.keeping lawful_reportFor stable_builds fun _ => .pure none
  · refine Lawful.keeping lawful_addTypeVars stable_builds fun vars => ?_
    refine (lawful_setBounds lawful_signatureBounds).keeping stable_builds fun _ => ?_
    refine (Lawful.mapM lawful_typeOfSig).keeping stable_builds fun _ => ?_
    refine (lawful_typeOfSig _).keeping stable_builds fun _ => ?_
    refine (Lawful.mapM lawful_typeOfSig).keeping stable_builds fun _ => ?_
    refine .bind (newMethod_builds (fun lasts h => h.of_lasts lasts) (fun _ => id) rfl rfl rfl
      fun _ _ _ => nofun) fun m => .pure ?_
    rintro e ⟨h, made⟩
    refine ⟨h, ?_⟩
    rintro _ ⟨⟩
    exact ⟨made.owns, by rw [Method.isSurrogate, made.origin]⟩

theorem stable_owns : Stable ℓ fun e => e.Owns b m ∧ (e.method m).isSurrogate = false := by
  rintro e r e' runs ⟨owns, plain⟩
  refine ⟨owns.of_lasts runs.lasts.methods, ?_⟩
  rwa [runs.lasts.methods.proj_eq (g := Method.isSurrogate) owns.inside fun _ => rfl]

theorem compiledMethods_triple {d : Descriptor} (compiled : x.isSource = false) :
    Triple (ℓ + 5) (Builds x b []) (d.methods.filterMapM (compiledMethod b d)) (Builds x b) := by
  refine (Triple.filterMapM_keeping (fun _ => compiledMethod_triple) fun _ => stable_owns).post ?_
  rintro list e ⟨h, owned⟩
  exact ⟨{ h.toGathers with listed := fun m mem => (owned m mem).1 }, fun m mem => (owned m mem).2,
    by simp [compiled]⟩

theorem lawful_recordOverride {own inherited : MethodId} {ret : Ty} :
    Lawful (ℓ + 5) (recordOverride own inherited ret) := by
  refine .bind (lawful_updateMethod fun m => ?_) fun _ => .bind .get fun e => ?_
  · split <;> rfl
  extract_lets m check
  have checked : ∀ r, Lawful (ℓ + 5) (check r) := by
    refine fun _ => .ite .pure ((Lawful.ask _ (by simp)).bind fun _ => .ite .pure ?_)
    exact .bind .get fun _ => lawful_reportFor
  exact .ite (.bind lawful_reportFor checked) (checked ())

theorem copyMethod_triple {tsuper team : BindingId} {inherited : List MethodId} (mem : m ∈ inherited) :
    Triple (ℓ + 5) (fun e => Builds x b list e ∧ e.slot (.methods tsuper) = .resolved inherited)
      (copyMethod b team list m)
      fun list e => Builds x b list e ∧ e.slot (.methods tsuper) = .resolved inherited := by
  refine .get_bind fun e₀ => ?_
  extract_lets y
  refine Triple.pre (P := fun e => e₀.slot (.methods tsuper) = .resolved inherited ∧
    Builds x b list e ∧ e₀.Lasts e) (.assume fun resolved => ?_) ?_
  · have stable : ∀ ℓ, Stable ℓ fun e => Builds x b list e ∧ e₀.Lasts e :=
      fun _ _ _ _ runs h => ⟨stable_builds runs h.1, h.2.trans runs.lasts⟩
    refine Triple.post ?_ fun list e (h : Builds x b list e ∧ e₀.Lasts e) =>
      ⟨h.1, h.2.resolved resolved⟩
    refine .ite (.pure fun _ h => h) ?_
    refine (Lawful.mapM lawful_rebindType).keeping (stable _) fun params => ?_
    refine (lawful_rebindType _).keeping (stable _) fun ret => .get_bind fun e₁ => ?_
    extract_lets existing
    cases found : existing with
    | some own =>
      refine Triple.pre (P := fun e => Builds x b list e ∧ e₀.Lasts e) ?_ fun _ h => h.2
      exact .ite (.pure fun _ h => h) (Lawful.keeping lawful_recordOverride (stable _) fun _ =>
        .pure fun _ h => h)
    | none =>
      refine Triple.pre (P := fun e => BuildsBut x b list y.name params e ∧ e₀.Lasts e) ?_ ?_
      · refine .bind (newMethod_builds (P := fun e => BuildsBut x b list y.name params e ∧ e₀.Lasts e)
          (fun lasts h => ⟨h.1.of_lasts lasts, h.2.trans lasts⟩) (fun _ h => h.1.toBuilds) rfl rfl rfl
          ?_) fun copy => .pure ?_
        · rintro e ⟨-, lasts⟩ linked _ ⟨⟩
          have inside := linked.lt_size_of_lasts lasts resolved mem
          have known := lasts.resolved resolved
          exact ⟨⟨tsuper, inherited, linked.listed tsuper inherited known m mem, known⟩,
            lasts.methods.proj_eq (g := Method.name) inside fun _ => rfl⟩
        · exact fun e h => ⟨h.1.1.append h.2 rfl, h.1.2⟩
      · rintro _ ⟨rfl, h, lasts⟩
        refine ⟨⟨h, fun n hn name params' => ?_⟩, lasts⟩
        refine List.find?_eq_none.1 found n hn ?_
        rw [name, params', Env.sameErasures_self]
        simp [y]
  · rintro _ ⟨rfl, h, resolved⟩
    exact ⟨resolved, h, .refl _⟩

theorem copyMethods_triple :
    Triple (ℓ + 5) (Builds x b list) (copyMethods b list) (Builds x b) := by
  refine Lawful.keeping lawful_teamOf stable_builds fun team => ?_
  refine Lawful.keeping lawful_tsuperRoles stable_builds fun tsupers => ?_
  refine .foldlM_keeping fun tsuper _ list => ?_
  refine (Triple.ask (.methods tsuper) (by simp)).framed_bind stable_builds (fun _ _ => trivial)
    fun inherited => ?_
  refine Triple.post (Triple.pre (.foldlM_keeping (I := fun list e => Builds x b list e ∧
    e.slot (.methods tsuper) = .resolved inherited) fun m mem _ => copyMethod_triple mem) ?_) ?_
  · exact fun _ h => ⟨h.2, h.1⟩
  · exact fun _ _ h => h.1

end Resolve

end TeamRoles
