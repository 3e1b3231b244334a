import TeamRoles.Generics.Subtyping
import TeamRoles.Proofs.Lawful.Methods
import TeamRoles.Roles.BaseClass
import TeamRoles.Roles.Lifting

/-!
Types are instantiated and compared lawfully.
-/

namespace TeamRoles

variable {ℓ : Nat}

namespace Resolve

theorem lawful_ofErased {t : ErasedType} : Lawful ℓ (ofErased t) := by
  induction t with
  | primitive b => exact .pure
  | null => exact .pure
  | cls b => exact .pure
  | root => exact lawful_objectType
  | array component ih => exact ih.bind fun _ => .pure

theorem lawful_erasure {t : Ty} : Lawful ℓ (erasure t) := .bind .get fun _ => lawful_ofErased

theorem lawful_substitute {s : Substitution} {t : Ty} : Lawful ℓ (substitute s t) :=
  .bind .get fun _ => .ite (.bind lawful_objectType fun _ => .pure) (.bind .pure fun _ => .pure)

end Resolve

/-- The layers of the substitution are for these generic types, one for each. -/
def Env.Layers (e : Env) (generics : List BindingId) (s : Substitution) : Prop :=
  List.Forall₂ (fun b layer => (e.binding b).typeVariables = .resolved layer.vars) generics s.layers

namespace Env.Layers

variable {e : Env} {generics : List BindingId} {s : Substitution}

theorem resolved (h : e.Layers generics s) :
    ∀ b ∈ generics, ∃ vars, e.slot (.typeVariables b) = .resolved vars := by
  intro b hb
  obtain ⟨i, inside, rfl⟩ := List.getElem_of_mem hb
  exact ⟨_, h.get inside (h.length_eq ▸ inside)⟩

theorem instance_subst {e' : Env} {root t : Ty} (h : e.Layers generics s) :
    e.Instance generics t (t.subst (s.image e' root)) := by
  refine ⟨_, rfl, fun v moved => ?_⟩
  cases found : s.layers.find? (·.vars.contains v) with
  | none =>
    have kept : s.image? v = none := by rw [Substitution.image?, found]; rfl
    exact absurd (by rw [Substitution.image, kept]) moved
  | some layer =>
    obtain ⟨i, inside, rfl⟩ := List.getElem_of_mem (List.mem_of_find?_eq_some found)
    have inside' : i < generics.length := h.length_eq ▸ inside
    refine ⟨generics[i], List.getElem_mem inside', _, h.get inside' inside, ?_⟩
    simpa using List.find?_some found

end Env.Layers

namespace Resolve

theorem stable_layers {generics : List BindingId} {s : Substitution} :
    Stable ℓ fun e => e.Layers generics s :=
  fun _ _ _ runs layers => layers.imp fun b _ known => stable_slot (p := .typeVariables b) runs known

theorem substitute_triple {generics : List BindingId} {s : Substitution} {t : Ty} {P : Env → Prop}
    (stable : Stable ℓ P) (layers : ∀ e, P e → e.Layers generics s) :
    Triple ℓ P (substitute s t) fun u e => e.Instance generics t u ∧ P e := by
  refine Lawful.get.keeping stable fun e => ?_
  refine .ite (lawful_objectType.keeping stable fun root => ?_) (Lawful.pure.keeping stable fun root => ?_)
  all_goals exact .pure fun e' he => ⟨(layers e' he).instance_subst, he⟩

theorem layer_triple {generic : BindingId} {enclosing : Option Ty} {layer : List TypeVarId → SubstLayer}
    (vars : ∀ vars, (layer vars).vars = vars)
    (outer : Triple (ℓ + 1) (fun _ => True) (substitutionForOption enclosing) fun s e =>
      e.Layers (Ty.generics.genericsOfOption enclosing) s) :
    Triple (ℓ + 1) (fun _ => True)
      (do let vars ← ask (.typeVariables generic)
          let outer ← substitutionForOption enclosing
          return ⟨layer vars :: outer.layers⟩)
      fun s e => e.Layers (generic :: Ty.generics.genericsOfOption enclosing) s := by
  refine (Triple.ask (.typeVariables generic) (by simp)).bind fun known => ?_
  refine .bind ((outer.frame stable_slot).pre fun _ resolved => ⟨trivial, resolved⟩) fun _ => ?_
  exact .pure fun _ h => .cons (by rw [vars]; exact h.2) h.1

mutual

theorem substitutionFor_triple (t : Ty) :
    Triple (ℓ + 1) (fun _ => True) (substitutionFor t) fun s e => e.Layers t.generics s := by
  match t with
  | .parameterized generic args enclosing =>
    rw [substitutionFor]
    exact layer_triple (fun _ => rfl) (substitutionForOption_triple enclosing)
  | .raw generic enclosing =>
    rw [substitutionFor]
    exact layer_triple (fun _ => rfl) (substitutionForOption_triple enclosing)
  | .anchored role path =>
    rw [substitutionFor]
    exact substitutionFor_triple role
  | .primitive _ | .null | .declared _ | .variable _ | .wildcard _ _ | .captured _ | .array _ =>
    simp only [substitutionFor]
    exact .pure fun _ _ => .nil

theorem substitutionForOption_triple (t : Option Ty) :
    Triple (ℓ + 1) (fun _ => True) (substitutionForOption t) fun s e =>
      e.Layers (Ty.generics.genericsOfOption t) s := by
  match t with
  | none =>
    rw [substitutionForOption]
    exact .pure fun _ _ => .nil
  | some t =>
    rw [substitutionForOption]
    exact substitutionFor_triple t

end

theorem lawful_substitutionFor (t : Ty) : Lawful (ℓ + 1) (substitutionFor t) :=
  (substitutionFor_triple t).lawful

theorem instanceMembers_triple {t : Ty} {P : Env → Prop} :
    Triple ℓ P (instanceMembers t) fun members e =>
      members = (e.instances.lookup t).getD {} ∧ P e := by
  refine .get_bind fun e => .pure ?_
  rintro _ ⟨rfl, he⟩
  exact ⟨rfl, he⟩

end Resolve

/-- All is there that the supertypes of an instantiation are made of. -/
structure Env.Instantiates (e : Env) (t : Ty) (generic : BindingId) (declared : Supertypes)
    (s : Substitution) : Prop where
  awaits : e.Awaits (.supertypes t)
  shown : e.Shows generic declared
  layers : e.Layers t.generics s

namespace Resolve

theorem stable_instance {generics : List BindingId} {t u : Ty} :
    Stable ℓ fun e => e.Instance generics t u := by
  rintro e r e' runs ⟨σ, rfl, moves⟩
  refine ⟨σ, rfl, fun v moved => ?_⟩
  obtain ⟨b, hb, vars, known, hv⟩ := moves v moved
  exact ⟨b, hb, vars, stable_slot (p := .typeVariables b) runs known, hv⟩

theorem stable_shows {b : BindingId} {s : Supertypes} : Stable ℓ fun e => e.Shows b s :=
  fun _ _ _ runs shown => runs.extends.shows shown

section Supertypes

variable {t : Ty} {generic : BindingId} {declared : Supertypes} {s : Substitution}

theorem stable_instantiates : Stable 1 fun e => e.Instantiates t generic declared s :=
  fun _ _ _ runs h =>
    ⟨stable_awaits (by simp) runs h.awaits, stable_shows runs h.shown, stable_layers runs h.layers⟩

theorem substituteInstance_triple {c : Ty} :
    Triple 1 (fun e => e.Instantiates t generic declared s) (substitute s c)
      fun u e => e.Instance t.generics c u ∧ e.Instantiates t generic declared s :=
  substitute_triple stable_instantiates fun _ h => h.layers

theorem instanceSupertypes_triple (instantiated : genericOf? t = some generic)
    (plain : ∀ role path, t ≠ .anchored role path) :
    Triple (ℓ + 2) (fun _ => True) (instanceSupertypes t generic)
      fun s e => e.cache (.supertypes t) = some s := by
  refine (instanceMembers_triple (P := fun _ => True)).bind fun members => ?_
  split
  · next filled =>
    refine .pure ?_
    rintro e ⟨rfl, -⟩
    exact filled
  · next empty =>
    -- A store needs the cache to be empty still; that is carried through every step up to it.
    refine Triple.pre (P := fun e => e.Awaits (.supertypes t)) ?_ ?_
    · refine .bind (((Triple.ask (.supertypes generic) (by simp)).framed (stable_awaits (m := 1) (by simp))
        fun _ _ => trivial).mono (by simp)) fun declared => ?_
      have prepared : Stable 1 fun e => e.Shows generic declared ∧ e.Awaits (.supertypes t) :=
        fun _ _ _ runs h => ⟨stable_shows runs h.1, stable_awaits (by simp) runs h.2⟩
      refine .bind (((substitutionFor_triple (ℓ := 0) t).framed prepared fun _ _ => trivial).mono (by simp))
        fun s => ?_
      extract_lets finish
      have finished : ∀ superclass, Triple (ℓ + 2) (fun e =>
          List.Forall₂ (e.Instance t.generics) declared.superclass.toList superclass.toList ∧
            e.Instantiates t generic declared s) (finish superclass)
          fun s e => e.cache (.supertypes t) = some s := by
        intro superclass
        have interfaces : Triple 1 (fun e => e.Instantiates t generic declared s)
            (declared.interfaces.mapM (substitute s)) fun us e =>
              List.Forall₂ (e.Instance t.generics) declared.interfaces us ∧
                e.Instantiates t generic declared s :=
          .mapM_forall₂ (fun _ => substituteInstance_triple) fun _ _ => stable_instance
        have kept : Stable 1 fun e =>
            List.Forall₂ (e.Instance t.generics) declared.superclass.toList superclass.toList :=
          fun _ _ _ runs related => related.imp fun _ _ h => stable_instance runs h
        refine .bind (((interfaces.frame kept).pre fun _ h => ⟨h.2, h.1⟩).mono (by simp)) fun us => ?_
        refine .store (c := .supertypes t) (by simp) (fun e h => ⟨h.1.2.awaits, ?_⟩) (.pure fun _ h => h)
        exact ⟨generic, declared, instantiated, h.1.2.shown, List.rel_append h.2 h.1.1⟩
      split
      · next c written =>
        refine .bind (Q := fun superclass e => List.Forall₂ (e.Instance t.generics) (some c).toList superclass.toList ∧
          e.Instantiates t generic declared s) ?_ (by simpa only [written] using finished)
        have one : Triple 1 (fun e => e.Instantiates t generic declared s) (substitute s c)
            fun u e => e.Instance t.generics c u ∧ e.Instantiates t generic declared s :=
          substituteInstance_triple
        refine ((one.bind fun u => .pure (a := some u) ?_).mono (by simp)).pre fun _ h =>
          ⟨h.2.2, h.2.1, h.1⟩
        exact fun _ h => ⟨.cons h.1 .nil, h.2⟩
      · next none =>
        refine .bind (.pure ?_) (by simpa only [none] using finished)
        exact fun _ h => ⟨.nil, h.2.2, h.2.1, h.1⟩
    · rintro e ⟨rfl, -⟩
      exact ⟨empty, by rw [instantiated]; rfl, plain⟩

end Supertypes

theorem lawful_typeSupertypes (t : Ty) : Lawful (ℓ + 2) (typeSupertypes t) := by
  fun_induction typeSupertypes t with
  | case1 b => exact .ask _ (by simp)
  | case2 generic args enclosing => exact Triple.lawful (instanceSupertypes_triple rfl fun _ _ => nofun)
  | case3 generic enclosing => exact Triple.lawful (instanceSupertypes_triple rfl fun _ _ => nofun)
  | case4 role path ih => exact ih
  | case5 c => exact .bind .get fun _ => .pure
  | case6 v =>
    refine .bind .get fun e => ?_
    split
    · exact .pure
    · exact .bind lawful_objectType fun _ => .pure
  | case7 => exact .pure

theorem lawful_instanceField {s : Substitution} {generic : FieldId} :
    Lawful (ℓ + 4) (instanceField s generic) := by
  refine (Lawful.ask _ (by simp)).bind fun _ => .bind lawful_substitute fun _ => .bind .get fun e => ?_
  exact Triple.lawful (addField_triple.pre (Q := fun _ _ => True) fun _ _ => ⟨fun _ _ => nofun, trivial⟩)

theorem lawful_typeFields {t : Ty} : Lawful (ℓ + 6) (typeFields t) := by
  unfold typeFields
  split
  · split
    · exact .ask _ (by simp)
    · exact .pure
  · next generic instantiated =>
    refine (substitutionFor_triple t).lawful_bind fun s => ?_
    refine .bind instanceMembers_triple fun members => ?_
    split
    · exact Lawful.pure.under
    · next empty =>
      refine Triple.pre (P := fun e => e.Awaits (.fields t)) ?_ ?_
      · refine (Lawful.ask _ (by simp)).keepingAt 5 (by simp) (stable_awaits (by simp)) fun _ => ?_
        refine Lawful.keepingAt 5 (by simp) (.mapM fun _ => lawful_instanceField) (stable_awaits (by simp))
          fun _ => ?_
        exact .store (c := .fields t) (by simp) (fun _ h => ⟨h, trivial⟩) Lawful.pure.under
      · rintro e ⟨rfl, layers⟩
        exact ⟨empty, Option.isSome_iff_exists.2 ⟨generic, instantiated⟩, layers.resolved⟩

section Methods

variable {t : Ty} {generic : BindingId} {g m : MethodId} {list : List MethodId} {s : Substitution}

theorem stable_specializes : Stable ℓ fun e =>
    e.slot (.methods generic) = .resolved list ∧ e.Specializes generic g m :=
  fun _ _ _ runs h => ⟨stable_slot (p := .methods generic) runs h.1, h.2.of_lasts runs.lasts.methods h.1⟩

theorem instanceMethod_triple : Triple 5 (fun e => e.slot (.methods generic) = .resolved list) (instanceMethod s g)
    fun m e => e.Specializes generic g m := by
  refine .get_bind fun start => Triple.pre (P := fun e => start.Lasts e ∧ start.slot (.methods generic) = .resolved list)
    ?_ ?_
  · have lasting {ℓ : Nat} : Stable ℓ fun e => start.Lasts e ∧ start.slot (.methods generic) = .resolved list :=
      fun _ _ _ runs h => ⟨h.1.trans runs.lasts, h.2⟩
    refine Lawful.keeping (.mapM fun _ => lawful_substitute) lasting fun params => ?_
    refine lawful_substitute.keeping lasting fun ret => ?_
    refine Lawful.keeping (.mapM fun _ => lawful_substitute) lasting fun exceptions => ?_
    refine newMethod_triple (ℓ := 0) lasting fun e enhanced h => ⟨⟨?_, ?_, rfl⟩, ?_, ?_, fun owns => ?_⟩
    · intro proper
      cases proper
    · intro _ source copied
      cases copied
    · simp [Env.nextMethod, Env.size_addMethod]
    · rw [Env.method_addMethod_self]
    · -- The generic method was there when it was read, and is still called as it was.
      obtain ⟨lasts, known⟩ := h
      have was := owns.before (lasts.methods.trans (.add fun copied => by cases copied) fun _ _ => lasts.resolved (p := .methods _)) known
      rw [Env.method_addMethod_self, Env.method_addMethod_of_lt (Nat.lt_of_lt_of_le was.inside lasts.methods.size),
        lasts.methods.proj_eq (g := Method.name) was.inside fun _ => rfl]
  · rintro _ ⟨rfl, known⟩
    exact ⟨.refl _, known⟩

theorem instanceMethods_triple (instantiated : genericOf? t = some generic) :
    Triple (ℓ + 6) (fun _ => True) (typeMethods t) fun list e => e.cache (.methods t) = some list := by
  unfold typeMethods
  simp only [instantiated]
  refine .bind ((substitutionFor_triple (ℓ := 0) t).mono (by simp)) fun s => ?_
  refine .bind instanceMembers_triple fun members => ?_
  split
  · next filled =>
    refine .pure ?_
    rintro e ⟨rfl, -⟩
    exact filled
  · next empty =>
    refine Triple.pre (P := fun e => e.Awaits (.methods t)) ?_ ?_
    · have awaits : Stable 5 fun e => e.Awaits (.methods t) := stable_awaits (by simp)
      refine .bind (((Triple.ask (.methods generic) (by simp)).framed awaits fun _ _ => trivial).mono (by simp))
        fun originals => ?_
      have ready : Stable 5 fun e => e.slot (.methods generic) = .resolved originals ∧ e.Awaits (.methods t) :=
        fun _ _ _ runs h => ⟨stable_slot (p := .methods generic) runs h.1, awaits runs h.2⟩
      have made (g : MethodId) : Triple 5
          (fun e => e.slot (.methods generic) = .resolved originals ∧ e.Awaits (.methods t)) (instanceMethod s g)
          fun m e => (e.slot (.methods generic) = .resolved originals ∧ e.Specializes generic g m) ∧
            e.slot (.methods generic) = .resolved originals ∧ e.Awaits (.methods t) :=
        (instanceMethod_triple.framed ready fun _ h => h.1).post fun _ _ h => ⟨⟨h.2.1, h.1⟩, h.2⟩
      refine .bind ((Triple.mapM_forall₂ made fun _ _ => stable_specializes).mono (by simp)) fun list => ?_
      refine .store (c := .methods t) (by simp) (fun e h => ⟨h.2.2, ?_⟩) (.pure fun _ h => h)
      exact ⟨generic, originals, instantiated, h.2.1, h.1.imp fun _ _ h => h.2⟩
    · rintro e ⟨rfl, layers⟩
      exact ⟨empty, Option.isSome_iff_exists.2 ⟨generic, instantiated⟩, layers.resolved⟩

theorem lawful_typeMethods : Lawful (ℓ + 6) (typeMethods t) := by
  cases instantiated : genericOf? t with
  | some generic => exact (instanceMethods_triple instantiated).lawful
  | none =>
    unfold typeMethods
    simp only [instantiated]
    split
    · exact .ask _ (by simp)
    · exact .pure

end Methods

theorem lawful_memberTypesWithin {b : BindingId} {enclosing : Option Ty} :
    Lawful (ℓ + 1) (memberTypesWithin b enclosing) :=
  .bind lawful_memberTypes fun _ => .bind .get fun _ => .pure

theorem lawful_typeMemberTypes {t : Ty} : Lawful (ℓ + 6) (typeMemberTypes t) := by
  unfold typeMemberTypes
  split
  · next generic args enclosing =>
    refine (instanceMembers_triple (P := fun _ => True)).lawful_bind fun members => ?_
    split
    · exact Lawful.pure.under
    · next empty =>
      refine Triple.pre (P := fun e =>
        e.Awaits (.memberTypes (.parameterized generic args enclosing))) ?_ ?_
      · refine Lawful.keepingAt 1 (by simp) lawful_memberTypesWithin (stable_awaits (by simp)) fun _ => ?_
        exact .store (c := .memberTypes _) (by simp) (fun _ h => ⟨h, trivial⟩) Lawful.pure.under
      · rintro e ⟨rfl, -⟩
        exact ⟨empty, generic, args, enclosing, rfl⟩
  · split
    · exact lawful_memberTypesWithin
    · exact .pure

theorem lawful_baseClassOf {t : Ty} : Lawful (ℓ + 3) (baseClassOf t) := by
  unfold baseClassOf
  split
  · exact .pure
  · refine (Lawful.ask _ (by simp)).bind fun base => ?_
    cases base with
    | none => exact .pure
    | some base =>
      exact (lawful_substitutionFor t).bind fun _ => .bind lawful_substitute fun _ => .pure

theorem lawful_containsAll {pairs : List (Ty × Ty)} : Lawful (ℓ + 2) (containsAll pairs) := by
  induction pairs with
  | nil => exact .pure
  | cons pair pairs ih => exact (Lawful.ask _ (by simp)).bind fun _ => .ite ih .pure

theorem lawful_containsBothWays {pairs : List (Ty × Ty)} : Lawful (ℓ + 2) (containsBothWays pairs) := by
  induction pairs with
  | nil => exact .pure
  | cons pair pairs ih =>
    refine (Lawful.ask _ (by simp)).bind fun _ => .ite ?_ .pure
    exact (Lawful.ask _ (by simp)).bind fun _ => .ite ih .pure

theorem lawful_contains {arg other : Ty} : Lawful (ℓ + 2) (contains arg other) := by
  refine .ite .pure (.bind lawful_objectType fun object => ?_)
  split
  · exact .pure
  · exact .ask _ (by simp)
  · exact .pure
  · exact .ask _ (by simp)
  · exact .ask _ (by simp)
  · exact .pure
  · exact .ask _ (by simp)
  · exact .pure
  · exact .ask _ (by simp)

theorem lawful_isEquivalent {a b : Ty} : Lawful (ℓ + 2) (isEquivalent a b) := by
  refine .ite .pure ?_
  split
  · refine .ite .pure (.bind lawful_containsBothWays fun _ => .ite ?_ .pure)
    split
    · exact .pure
    · exact .ask _ (by simp)
    · exact .pure
  · exact .pure
  · exact .ask _ (by simp)
  · exact .ite (.ask _ (by simp)) .pure
  · exact .pure

theorem lawful_fitsTarget {found sup : Ty} : Lawful (ℓ + 2) (fitsTarget found sup) := by
  unfold fitsTarget
  split
  · exact .pure
  · exact .pure
  · exact .ite lawful_containsAll .pure
  · exact .pure

theorem lawful_reachesType {sub sup : Ty} : Lawful (ℓ + 2) (reachesType sub sup) := by
  unfold reachesType
  split
  · exact .pure
  · refine lawful_walk (fun t => (lawful_typeSupertypes t).bind fun _ => .pure) _ _ fun _ _ => ?_
    exact .ite .pure (.bind lawful_fitsTarget fun _ => .ite .pure .pure)

theorem lawful_anySubtype {sup : Ty} {ts : List Ty} : Lawful (ℓ + 2) (anySubtype sup ts) := by
  induction ts with
  | nil => exact .pure
  | cons t ts ih => exact (Lawful.ask _ (by simp)).bind fun _ => .ite .pure ih

theorem lawful_isSubtype {sub sup : Ty} : Lawful (ℓ + 2) (isSubtype sub sup) := by
  refine .bind .get fun e => .ite .pure (.bind lawful_objectType fun object => ?_)
  split
  · exact .pure
  · exact .pure
  · refine .ite .pure ?_
    split
    · exact .pure
    · exact .ite (.ask _ (by simp)) .pure
    · exact .bind .get fun _ => lawful_anySubtype
    · exact .bind .get fun _ => .ask _ (by simp)
    · refine .bind .get fun _ => ?_
      split
      · exact .ask _ (by simp)
      · exact .pure
    · exact .ite (.ask _ (by simp)) .pure
    · exact .pure
    · exact .ask _ (by simp)
    · exact lawful_reachesType
    · exact lawful_reachesType
    · exact lawful_reachesType
    · exact .pure

theorem lawful_isCompatible {source target : Ty} : Lawful (ℓ + 2) (isCompatible source target) := by
  refine (Lawful.ask _ (by simp)).bind fun _ => .ite .pure ?_
  split
  · exact .pure
  · refine .ite ?_ .pure
    exact .bind lawful_erasure fun _ => .bind lawful_erasure fun _ => .ask _ (by simp)

theorem lawful_capture {t : Ty} {site : Span} : Lawful (ℓ + 1) (capture t site) := by
  unfold capture
  split
  · refine .ite ?_ .pure
    refine (Lawful.ask _ (by simp)).bind fun vars => .bind lawful_objectType fun object => ?_
    refine .bind (.mapM fun arg => .bind .get fun _ => ?_) fun _ => .pure
    dsimp only
    split
    · exact .bind lawful_addCapture fun _ => .pure
    · exact .pure
  · exact .pure

theorem lawful_withinBounds {s : Substitution} {arg : Ty} {bounds : List Ty} :
    Lawful (ℓ + 2) (checkBound.withinBounds s arg bounds) := by
  induction bounds with
  | nil => exact .pure
  | cons bound bounds ih =>
    exact .bind lawful_substitute fun _ => (Lawful.ask _ (by simp)).bind fun _ => .ite ih .pure

theorem lawful_checkBound {check : BoundCheck} : Lawful (ℓ + 2) (checkBound check) := by
  unfold checkBound
  split
  · refine (Lawful.ask _ (by simp)).bind fun vars => (lawful_substitutionFor _).bind fun s => ?_
    refine .forM fun pair => .bind .get fun _ => .ite .pure (.bind .get fun _ => ?_)
    refine .bind lawful_withinBounds fun _ => .ite .pure (.bind .get fun _ => ?_)
    exact lawful_reportInUnit
  · exact .pure

theorem lawful_checkDeferredBounds : Lawful (ℓ + 2) checkDeferredBounds := by
  refine .bind .get fun _ => .bind ?_ fun _ => .forM fun _ => lawful_checkBound
  exact .elsewhere fun _ => rfl

theorem lawful_inheritedBaseClass {b : BindingId} : Lawful (ℓ + 3) (inheritedBaseClass b) := by
  refine .bind .get fun e => .ite ?_ .pure
  refine .bind lawful_superclassOf fun _ => .bind .get fun _ => ?_
  refine .bind (.findSomeM? fun _ => .ask _ (by simp)) fun found => ?_
  cases found with
  | some base => exact .pure
  | none => exact .bind lawful_tsuperRoles fun _ => .findSomeM? fun _ => .ask _ (by simp)

theorem lawful_checkDeclaredBase {b : BindingId} {base : Ty} {unit : UnitId} :
    Lawful (ℓ + 3) (checkDeclaredBase b base unit) := by
  refine .bind .get fun e => ?_
  extract_lets role report done
  have reported {p : ProblemId} {arguments : List String} : Lawful (ℓ + 3) (report p arguments) :=
    lawful_reportInUnit
  refine .ite (.ite .pure ?_) (reported.bind fun _ => .pure)
  split
  · exact .pure
  · extract_lets name refines check
    have refined : ∀ r, Lawful (ℓ + 3) (refines r) := by
      refine fun _ => .bind lawful_inheritedBaseClass fun inherited => ?_
      cases inherited with
      | none => exact .pure
      | some inherited =>
        refine .bind .get fun _ => .ite .pure ((Lawful.ask _ (by simp)).bind fun _ => .ite .pure ?_)
        exact .bind .get fun _ => reported.bind fun _ => .pure
    have checked : ∀ isCycle, Lawful (ℓ + 3) (check isCycle) := by
      refine fun _ => .ite (reported.bind fun _ => .pure) (.bind .get fun _ => ?_)
      refine .ite (reported.bind fun _ => .pure) ?_
      exact .ite (refined ()) (reported.bind refined)
    exact .ite (.bind .pure checked) (.bind lawful_reaches checked)

theorem baseClass_triple {b : BindingId} :
    Triple (ℓ + 3) (fun _ => True) (baseClass b) fun _ e => e.slot (.baseClass b) ≠ .unresolved := by
  refine .bind known_triple fun x => ?_
  extract_lets finish
  have finished {start : Env} : ∀ base, Latched start (ℓ + 3) (.baseClass b) (fun _ => True) (finish base)
      fun _ e => e.slot (.baseClass b) ≠ .unresolved := by
    refine fun _ => .finish (fun _ _ => trivial) (fun _ _ => trivial) (.pure fun e resolved => ?_)
    rw [resolved]
    nofun
  split
  · next resolved =>
    refine .pure ?_
    rintro e ⟨-, rfl⟩ fresh
    cases resolved.symm.trans fresh
  · next begun =>
    refine .pure ?_
    rintro e ⟨-, rfl⟩ fresh
    cases begun.symm.trans fresh
  · next fresh =>
    refine (Triple.begin (p := .baseClass b) (by simp) fun _ => ?_).pre ?_
    · split
      · split
        · refine .get_bind fun _ => .bind (lawful_typeOfSpec _).under fun _ => ?_
          exact .bind (Lawful.triple lawful_checkDeclaredBase) finished
        · exact .bind (Lawful.triple lawful_inheritedBaseClass) finished
      · split
        · refine .ite ?_ (.bind Lawful.pure.triple finished)
          refine .bind (Lawful.triple lawful_findTypeOrProblem) fun _ => .get_bind fun _ => ?_
          exact .bind Lawful.pure.under finished
        · exact .bind Lawful.pure.triple finished
      · exact .bind Lawful.pure.triple finished
    · rintro e ⟨inside, rfl⟩
      exact ⟨inside, fresh⟩

theorem lawful_roleBase {t : Ty} : Lawful (ℓ + 3) (roleBase t) := by
  refine .bind .get fun e => ?_
  split
  · exact .ite lawful_baseClassOf .pure
  · exact .pure

theorem lawful_canLift {source target : Ty} : Lawful (ℓ + 3) (canLift source target) := by
  fun_induction canLift source target with
  | case1 source target ih =>
    refine .bind lawful_isCompatible fun _ => .ite .pure ?_
    split
    · exact ih
    · refine .bind lawful_roleBase fun base => ?_
      cases base with
      | some base => exact lawful_isCompatible
      | none => exact .pure

theorem lawful_canLower {source target : Ty} : Lawful (ℓ + 3) (canLower source target) := by
  fun_induction canLower source target with
  | case1 source target ih =>
    refine .bind lawful_isCompatible fun _ => .ite .pure ?_
    split
    · exact ih
    · refine .bind lawful_roleBase fun base => ?_
      cases base with
      | some base => exact lawful_isCompatible
      | none => exact .pure

end Resolve

end TeamRoles
