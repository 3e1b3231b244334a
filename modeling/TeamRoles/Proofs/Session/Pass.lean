import Mathlib.Data.List.Basic
import TeamRoles.Proofs.Pairing.Session

/-!
A pass over all units of a session: the stages it goes through, and what they leave to the later ones.
-/

namespace TeamRoles

variable {α β : Type} {ℓ : Nat} {e e' : Env} {b : BindingId}

/-- The components of a type have been asked for. A hierarchy or base class that was given up stays in
progress, and shows as none. -/
structure Env.Explored (e : Env) (b : BindingId) : Prop where
  supertypes : e.slot (.supertypes b) ≠ .unresolved
  memberTypes : ∃ list, e.slot (.memberTypes b) = .resolved list
  typeVariables : ∃ vars, e.slot (.typeVariables b) = .resolved vars
  fields : ∃ list, e.slot (.fields b) = .resolved list
  methods : ∃ list, e.slot (.methods b) = .resolved list
  baseClass : e.slot (.baseClass b) ≠ .unresolved

namespace Env.Explored

theorem begun (h : e.Explored b) : (e.binding b).Begun := by
  obtain ⟨vars, typeVariables⟩ := h.typeVariables
  obtain ⟨fieldList, fields⟩ := h.fields
  obtain ⟨methodList, methods⟩ := h.methods
  exact {
    supertypes := h.supertypes
    typeVariables := by simp [show (e.binding b).typeVariables = _ from typeVariables]
    fields := by simp [show (e.binding b).fields = _ from fields]
    methods := by simp [show (e.binding b).methods = _ from methods]
    baseClass := h.baseClass }

theorem of_lasts (h : e.Explored b) (lasts : e.Lasts e') : e'.Explored b := by
  have begun (p : Part) (h : e.slot p ≠ .unresolved) : e'.slot p ≠ .unresolved := by
    rwa [lasts.slots p h]
  have resolved (p : Part) (h : ∃ v, e.slot p = .resolved v) : ∃ v, e'.slot p = .resolved v :=
    h.imp fun _ => lasts.resolved
  exact ⟨begun _ h.supertypes, resolved _ h.memberTypes, resolved _ h.typeVariables,
    resolved _ h.fields, resolved _ h.methods, begun _ h.baseClass⟩

end Env.Explored

namespace Resolve

theorem bind_run_ok {x : Resolve α} {f : α → Resolve β} {c : β}
    (h : (x >>= f).run e = (.ok c, e')) :
    ∃ a d, x.run e = (.ok a, d) ∧ (f a).run d = (.ok c, e') :=
  bind_eq_ok h

theorem forM_idle {l : List α} {f : α → Resolve PUnit}
    (idle : ∀ a ∈ l, (f a).run e = (.ok ⟨⟩, e)) : (l.forM f).run e = (.ok ⟨⟩, e) := by
  induction l with
  | nil => rfl
  | cons a l ih =>
    obtain ⟨first, rest⟩ := List.forall_mem_cons.1 idle
    exact (bind_apply_ok first).trans (ih rest)

theorem Lawful.lasts {x : Resolve α} {r : Except Abort α} (h : Lawful ℓ x) (ran : x.run e = (r, e')) :
    e.Lasts e' := by
  have lasts := (h.run e).lasts
  rwa [ran] at lasts

/-- The stages of a pass that is not aborted, and the environments between them. -/
inductive Pass (e e' : Env) : Prop
  | stages (checked imported resolved bounded verified mapped : Env)
    (collisions : checkPackageCollisions.run e = (.ok (), checked))
    (imports : (checked.added.forM fun u => discard (imports u)).run checked =
      (.ok (), imported))
    (types : (resolveFrom maxDepth 0).run imported = (.ok (), resolved))
    (bounds : checkDeferredBounds.run resolved = (.ok (), bounded))
    (bases : (checked.added.forM verifyBaseImports).run bounded = (.ok (), verified))
    (roles : ((checked.added.flatMap (declaredTypes verified)).forM checkRole).run verified =
      (.ok (), mapped))
    (members : ((checked.added.flatMap (declaredTypes verified)).forM checkType).run mapped =
      (.ok (), e'))

theorem pass_of_resolve (h : resolve.run e = (.ok (), e')) : Pass e e' := by
  obtain ⟨_, checked, collisions, h⟩ := bind_run_ok h
  obtain ⟨_, _, ⟨⟩, h⟩ := bind_run_ok h
  obtain ⟨_, imported, imports, h⟩ := bind_run_ok h
  obtain ⟨_, _, ⟨⟩, h⟩ := bind_run_ok h
  obtain ⟨_, resolved, types, h⟩ := bind_run_ok h
  obtain ⟨_, bounded, bounds, h⟩ := bind_run_ok h
  obtain ⟨_, verified, bases, h⟩ := bind_run_ok h
  obtain ⟨_, _, ⟨⟩, h⟩ := bind_run_ok h
  obtain ⟨_, mapped, roles, members⟩ := bind_run_ok h
  exact .stages _ _ _ _ _ _ collisions imports types bounds bases roles members

theorem Triple.andThen {x : Resolve α} {f : α → Resolve β} {Q R : Env → Prop}
    (hx : Triple ℓ (fun _ => True) x fun _ => Q) (stable : Stable ℓ Q)
    (hf : ∀ a, Triple ℓ (fun _ => True) (f a) fun _ => R) :
    Triple ℓ (fun _ => True) (x >>= f) fun _ e => Q e ∧ R e := by
  refine hx.bind fun a => (((hf a).frame stable).pre fun _ h => ⟨trivial, h⟩).post ?_
  exact fun _ _ h => ⟨h.2, h.1⟩

theorem stable_begun {p : Part} : Stable ℓ fun e => e.slot p ≠ .unresolved := by
  intro e r e' runs begun
  rwa [runs.lasts.slots p begun]

theorem stable_resolved {p : Part} : Stable ℓ fun e => ∃ v, e.slot p = .resolved v :=
  fun _ _ _ runs ⟨v, resolved⟩ => ⟨v, stable_slot runs resolved⟩

theorem resolveAllComponents_triple :
    Triple (ℓ + 5) (fun _ => True) (resolveAllComponents b) fun _ e => e.Explored b := by
  have supertypes : Triple (ℓ + 5) (fun _ => True) (ask (.supertypes b))
      fun _ e => e.slot (.supertypes b) ≠ .unresolved := by
    refine (Triple.ask _ (by simp)).post fun _ e shown => ?_
    cases shown with
    | resolved same | inProgress same => simp [Env.slot, same]
  have memberTypes : Triple (ℓ + 5) (fun _ => True) (memberTypes b)
      fun _ e => ∃ list, e.slot (.memberTypes b) = .resolved list :=
    memberTypes_triple.post fun list _ h => ⟨list, h⟩
  have typeVariables : Triple (ℓ + 5) (fun _ => True) (ask (.typeVariables b))
      fun _ e => ∃ vars, e.slot (.typeVariables b) = .resolved vars :=
    (Triple.ask _ (by simp)).post fun vars _ h => ⟨vars, h⟩
  have fields : Triple (ℓ + 5) (fun _ => True) (ask (.fields b))
      fun _ e => ∃ list, e.slot (.fields b) = .resolved list :=
    (Triple.ask _ (by simp)).post fun list _ h => ⟨list, h⟩
  have methods : Triple (ℓ + 5) (fun _ => True) (ask (.methods b))
      fun _ e => ∃ list, e.slot (.methods b) = .resolved list :=
    (Triple.ask _ (by simp)).post fun list _ h => ⟨list, h⟩
  have baseClass : Triple (ℓ + 5) (fun _ => True) (ask (.baseClass b))
      fun _ e => e.slot (.baseClass b) ≠ .unresolved :=
    Triple.ask _ (by simp)
  have all := supertypes.discard.andThen stable_begun fun _ =>
    memberTypes.discard.andThen stable_resolved fun _ =>
      typeVariables.discard.andThen stable_resolved fun _ =>
        fields.discard.andThen stable_resolved fun _ =>
          methods.discard.andThen stable_resolved fun _ => baseClass.discard
  refine all.post ?_
  rintro _ e ⟨h₁, h₂, h₃, h₄, h₅, h₆⟩
  exact ⟨h₁, h₂, h₃, h₄, h₅, h₆⟩

theorem resolveFrom_triple {fuel next : Nat} :
    Triple (ℓ + 5) (fun e => ∀ b : BindingId, b.index < next → e.Explored b) (resolveFrom fuel next)
      fun _ e => e.bindings.size ≤ next + fuel ∧
        ∀ b : BindingId, b.index < e.bindings.size → e.Explored b := by
  have done {fuel next : Nat} (e : Env) (all : e.bindings.size ≤ next) :
      Triple (ℓ + 5) (fun e' => e' = e ∧ ∀ b : BindingId, b.index < next → e'.Explored b)
        (pure () : Resolve Unit) fun _ e => e.bindings.size ≤ next + fuel ∧
          ∀ b : BindingId, b.index < e.bindings.size → e.Explored b := by
    refine .pure ?_
    rintro _ ⟨rfl, explored⟩
    exact ⟨Nat.le_add_right_of_le all, fun b inside => explored b (Nat.lt_of_lt_of_le inside all)⟩
  -- All types before the next one are explored, and stay so while that one is.
  induction fuel generalizing next with
  | zero =>
    refine .get_bind fun e => ?_
    split
    · next all => exact done e all
    · exact .throw rfl
  | succ fuel ih =>
    refine .get_bind fun e => ?_
    split
    · next all => exact done e all
    · have kept : Stable (ℓ + 5) fun e => ∀ b : BindingId, b.index < next → e.Explored b :=
        fun _ _ _ runs h b hb => (h b hb).of_lasts runs.lasts
      refine .pre (.bind ((resolveAllComponents_triple.frame kept).pre fun _ h => ⟨trivial, h⟩)
        fun _ => (ih.pre ?_).post ?_) fun _ h => h.2
      · rintro e ⟨explored, before⟩ ⟨i⟩ inside
        rcases Nat.lt_succ_iff_lt_or_eq.1 inside with earlier | rfl
        · exact before ⟨i⟩ earlier
        · exact explored
      · rintro _ e ⟨bound, explored⟩
        exact ⟨by omega, explored⟩

/-! Running a pass

Types are sorted by their numbers, which is how they mostly come. -/

theorem run_of_outcome {x : Resolve α} {r : Except Abort α} (h : (x.run e).1 = r) :
    x.run e = (r, (x.run e).2) :=
  Prod.ext h rfl

theorem run_of_ok {x : Resolve α} (h : (x.run e).1.toBool = true) :
    ∃ a, x.run e = (.ok a, (x.run e).2) := by
  rcases outcome : x.run e with ⟨cause | a, d⟩
  · rw [outcome] at h
    cases h
  · exact ⟨a, rfl⟩

theorem run_unit_of_ok {x : Resolve Unit} (h : (x.run e).1.toBool = true) :
    x.run e = (.ok (), (x.run e).2) :=
  (run_of_ok h).choose_spec

def CollisionFree (e : Env) : Prop :=
  ∀ u ∈ e.units.toList, ∀ b ∈ u.types,
    (∀ v ∈ e.units.toList, Env.inPackage (e.binding b).name v.decl.effectivePackage = false) ∧
      e.provider.packageExists (e.binding b).name = false

instance (e : Env) : Decidable (CollisionFree e) :=
  inferInstanceAs (Decidable (∀ u ∈ e.units.toList, _))

theorem checkPackageCollisions_silent (h : CollisionFree e) :
    checkPackageCollisions.run e = (.ok (), e) := by
  refine forM_idle fun b sorted => ?_
  obtain ⟨u, hu, hb⟩ := List.mem_flatMap.1 (List.mem_mergeSort.1 sorted)
  obtain ⟨apart, absent⟩ := h u (List.mem_filter.1 hu).1 b hb
  have inside : (e.units.toList.filter fun u =>
      Env.inPackage (e.binding b).name u.decl.effectivePackage) = [] :=
    List.filter_eq_nil_iff.2 fun v hv => by simp [apart v hv]
  simp only [inside, absent]
  rfl

/-- The first half of a pass, up to the types that its units declare. -/
def resolveTypes (units : List UnitId) : Resolve Unit := do
  units.forM fun u => discard (imports u)
  resolveFrom (← depth) 0
  checkDeferredBounds
  units.forM verifyBaseImports

def checkTypes (declared : List BindingId) : Resolve Unit := do
  declared.forM checkRole
  declared.forM checkType

theorem resolve_run {mid : Env} (silent : checkPackageCollisions.run e = (.ok (), e))
    (types : (resolveTypes e.added).run e = (.ok (), mid))
    (sorted : ∀ u ∈ e.added, (typesWithin mid u mid.bindings.size (mid.unit u).types).Pairwise
      (·.index ≤ ·.index)) :
    resolve.run e = (checkTypes (e.added.flatMap fun u =>
      typesWithin mid u mid.bindings.size (mid.unit u).types)).run mid := by
  obtain ⟨_, imported, imports, types⟩ := bind_run_ok types
  obtain ⟨_, _, ⟨⟩, types⟩ := bind_run_ok types
  obtain ⟨_, resolved, components, types⟩ := bind_run_ok types
  obtain ⟨_, bounded, bounds, bases⟩ := bind_run_ok types
  have declared : e.added.flatMap (declaredTypes mid) = e.added.flatMap fun u =>
      typesWithin mid u mid.bindings.size (mid.unit u).types := by
    refine List.flatMap_congr fun u hu => List.mergeSort_of_pairwise ?_
    simpa using sorted u hu
  refine (bind_apply_ok silent).trans (get_bind_apply.trans ?_)
  refine (bind_apply_ok imports).trans ((bind_apply_ok rfl).trans ?_)
  refine (bind_apply_ok components).trans ((bind_apply_ok bounds).trans ?_)
  refine (bind_apply_ok bases).trans (get_bind_apply.trans ?_)
  rw [← declared]
  rfl

/-- What a pass leaves of a session with one unit that declares these types. -/
def afterSingle (types : List BindingId) (e : Env) : Env :=
  ((checkTypes types).run ((resolveTypes [⟨0⟩]).run e).2).2

/-- The session has one unit, which declares these types, and a pass over it is not aborted. -/
def PassesSingle (types : List BindingId) (e : Env) : Prop :=
  let mid := ((resolveTypes [⟨0⟩]).run e).2
  (e.added = [⟨0⟩] ∧ CollisionFree e) ∧
    ((resolveTypes [⟨0⟩]).run e).1.toBool = true ∧
    (typesWithin mid ⟨0⟩ mid.bindings.size (mid.unit ⟨0⟩).types = types ∧
      types.Pairwise (·.index ≤ ·.index)) ∧
    ((checkTypes types).run mid).1.toBool = true

instance (types : List BindingId) (e : Env) : Decidable (PassesSingle types e) :=
  inferInstanceAs (Decidable ((_ ∧ _) ∧ _ ∧ (_ ∧ _) ∧ _))

theorem PassesSingle.resolve_run {types : List BindingId} (h : PassesSingle types e) :
    resolve.run e = (.ok (), afterSingle types e) := by
  obtain ⟨⟨single, apart⟩, typed, ⟨declared, sorted⟩, checked⟩ := h
  have resolved : (resolveTypes e.added).run e = (.ok (), ((resolveTypes [⟨0⟩]).run e).2) := by
    rw [single]
    exact run_unit_of_ok typed
  refine (Resolve.resolve_run (checkPackageCollisions_silent apart) resolved ?_).trans ?_
  · simpa [single, declared] using sorted
  · simpa [single, declared, afterSingle] using run_unit_of_ok checked

end Resolve

namespace Env

def ofUnit (decl : UnitDecl) : Env :=
  ((Operation.addUnits [decl]).perform.run
    { options := {}, provider := (Library.core {}).provider }).2

def Added (decl : UnitDecl) : Prop :=
  ((Operation.addUnits [decl]).perform.run
    { options := {}, provider := (Library.core {}).provider }).1.toBool = true

instance (decl : UnitDecl) : Decidable (Added decl) := inferInstanceAs (Decidable (_ = true))

theorem Added.exists_run {decl : UnitDecl} (h : Added decl) :
    ∃ e ids, Env.new (Library.core {}).provider {} = .ok e ∧
      (Operation.addUnits [decl]).perform.run e = (.ok ids, ofUnit decl) := by
  obtain ⟨ids, added⟩ := Resolve.run_of_ok h
  exact ⟨_, ids, rfl, added⟩

end Env

end TeamRoles
