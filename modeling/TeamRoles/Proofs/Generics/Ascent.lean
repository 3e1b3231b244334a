import Mathlib.Algebra.GroupWithZero.Nat
import Mathlib.Data.Fintype.EquivFin
import TeamRoles.Proofs.Generics.Flat
import TeamRoles.Proofs.Generics.Stored

/-!
What lies above a class type in an environment in which all supertypes are resolved. The supertypes of an
instantiation are those of the generic type with the arguments put in, so that the classes above it are
those above the generic type.
-/

namespace TeamRoles

namespace Ty

variable {t : Ty} {σ : TypeVarId → Ty} {c : BindingId}

theorem bindingOf?_subst (h : Env.bindingOf? t = some c) : Env.bindingOf? (t.subst σ) = some c := by
  fun_induction Env.bindingOf? t with
  | case1 | case2 | case3 => exact h
  | case4 role path ih => exact ih h
  | case5 => cases h

theorem isBare_subst (h : t.isBare = true) : (t.subst σ).isBare = true := by
  fun_induction isBare t with
  | case1 => rfl
  | case2 generic args enclosing =>
    obtain rfl : enclosing = none := by simpa using h
    rfl
  | case3 role path ih => exact ih h
  | case4 => cases h

mutual

theorem subst_variable (t : Ty) : t.subst .variable = t := by
  match t with
  | .parameterized generic args enclosing =>
    rw [subst, substArgs_variable args, substOption_variable enclosing]
  | .raw generic enclosing => rw [subst, substOption_variable enclosing]
  | .wildcard kind bound => rw [subst, substOption_variable bound]
  | .array component => rw [subst, subst_variable component]
  | .anchored role path => rw [subst, subst_variable role]
  | .primitive _ | .null | .declared _ | .variable _ | .captured _ => rw [subst]

theorem substArgs_variable (ts : List Ty) : substArgs .variable ts = ts := by
  match ts with
  | [] => rw [substArgs]
  | t :: rest => rw [substArgs, subst_variable t, substArgs_variable rest]

theorem substOption_variable (t : Option Ty) : substOption .variable t = t := by
  match t with
  | none => rw [substOption]
  | some t => rw [substOption, subst_variable t]

end

end Ty

namespace Env

/-- The supertypes of a class type, as far as they have been made. -/
def Gives (e : Env) : Ty → Supertypes → Prop
  | .declared b, s => e.slot (.supertypes b) = .resolved s
  | .parameterized generic args enclosing, s =>
    e.cache (.supertypes (.parameterized generic args enclosing)) = some s
  | .raw generic enclosing, s => e.cache (.supertypes (.raw generic enclosing)) = some s
  | .anchored role _, s => e.Gives role s
  | _, _ => False

def IsClass (e : Env) (t : Ty) : Prop := ∃ c, bindingOf? t = some c ∧ c.index < e.bindings.size

/-- A class type of a class that is there, neither raw nor within an instantiation. -/
def Knows (e : Env) (t : Ty) : Prop := t.isBare = true ∧ e.IsClass t

/-- The class of the one type lies above that of the other. -/
def Ascends (e : Env) (t u : Ty) : Prop :=
  ∃ c d, bindingOf? t = some c ∧ bindingOf? u = some d ∧ e.Above c d

structure Ordered (e : Env) : Prop where
  resolved : ∀ b, b.index < e.bindings.size → ∃ s, e.slot (.supertypes b) = .resolved s
  acyclic : ∀ b, ¬Relation.TransGen e.Above b b

/-- There are no stand-ins for types either, nothing lies above the root, and no supertype is raw or within
an instantiation. -/
structure Resolved (e : Env) (root : BindingId) : Prop extends e.Ordered where
  proper : ∀ b, (e.binding b).isProblem = false
  bound : e.lookup? e.options.wellKnown.object = some root
  top : e.slot (.supertypes root) = .resolved {}
  bare : ∀ b s, e.slot (.supertypes b) = .resolved s → ∀ t ∈ s.all, t.isBare = true

def VarsResolved (e : Env) : Prop :=
  ∀ b, b.index < e.bindings.size → ∃ vars, e.slot (.typeVariables b) = .resolved vars

structure Grown (base e : Env) : Prop where
  lasts : base.Lasts e
  stored : e.Stored

/-- What has become of the environment without another root having been declared. -/
structure Later (base : Env) (root : BindingId) (e : Env) : Prop extends base.Grown e where
  bound : e.lookup? e.options.wellKnown.object = some root

variable {base e : Env} {root : BindingId} {t u : Ty} {s : Supertypes}

theorem Grown.stable {ℓ : Nat} : Resolve.Stable ℓ (Grown base) :=
  fun _ _ _ runs h => ⟨h.lasts.trans runs.lasts, h.stored.of_runs runs.runs⟩

theorem Later.stable : Resolve.Stable 2 (Later base root) := by
  intro e r e' runs h
  refine ⟨Grown.stable runs h.toGrown, ?_⟩
  rw [runs.lasts.options]
  exact runs.runs.lookup?_eq (by decide) h.bound

theorem Later.rootKnown (h : base.Later root e) : e.RootKnown := .inl (by rw [h.bound]; rfl)

theorem Gives.stable : Resolve.Stable 2 fun e => e.Gives t s := by
  intro e r e' runs given
  fun_induction Gives e t s with
  | case1 b s => exact runs.lasts.resolved (p := .supertypes b) given
  | case2 | case3 => exact runs.lasts.caches _ _ given
  | case4 role path s ih => exact ih given
  | case5 => cases given

theorem filterMap_eq_of_forall₂ {α β : Type} {f : α → Option β} {l l' : List α}
    (h : List.Forall₂ (fun a b => f b = f a) l l') : l'.filterMap f = l.filterMap f := by
  induction h with
  | nil => rfl
  | cons same _ ih => rw [List.filterMap_cons, List.filterMap_cons, same, ih]

theorem Stored.isClass (stored : e.Stored) {c : BindingId} (known : e.slot (.supertypes c) = .resolved s) :
    ∀ t ∈ s.all, e.IsClass t := by
  intro t ht
  obtain ⟨d, named⟩ := stored.typed (.supertypes c) s known t ht
  exact ⟨d, named, stored.ranged.slots (.supertypes c) s known d (List.mem_filterMap.2 ⟨t, ht, named⟩)⟩

theorem Resolved.knows_of_resolved (resolved : base.Resolved root) (stored : base.Stored) {c : BindingId}
    (known : base.slot (.supertypes c) = .resolved s) : ∀ t ∈ s.all, base.Knows t :=
  fun t ht => ⟨resolved.bare c s known t ht, stored.isClass known t ht⟩

section

variable (grown : base.Grown e)
include grown

/-- The supertypes of an instantiation are instances of those stored for its class. If that is not generic,
it has no variable that could be replaced. -/
theorem instances_of_cache {c : BindingId} {declared : Supertypes} (generic : Resolve.genericOf? t = some c)
    (known : base.slot (.supertypes c) = .resolved declared) (filled : e.cache (.supertypes t) = some s) :
    List.Forall₂ (fun d u => ∃ σ, u = d.subst σ ∧
      (t.generics = [c] → (base.binding c).isGeneric = false → σ = .variable)) declared.all s.all := by
  have inside : c.index < base.bindings.size := has_of_resolved known (by simp)
  have now : e.slot (.supertypes c) = .resolved declared := grown.lasts.resolved known
  obtain ⟨_, shown, generic', shows, related⟩ := grown.stored.caches (.supertypes _) s filled
  cases generic.symm.trans generic'
  have same : shown = declared := by
    cases shows with
    | resolved known => exact Slot.resolved.inj (known.symm.trans now)
    | inProgress known => cases known.symm.trans now
  subst same
  refine related.imp fun d u h => ?_
  obtain ⟨σ, rfl, moves⟩ := h
  refine ⟨σ, rfl, fun only plain => funext fun v => ?_⟩
  by_contra moved
  obtain ⟨b, hb, vars, published, hv⟩ := moves v moved
  rw [only, List.mem_singleton] at hb
  subst hb
  have none := grown.stored.typed (.typeVariables b) vars published
  rw [none ((grown.lasts.isGeneric_eq inside).trans plain)] at hv
  cases hv

/-- The supertypes of a class type are instances of those stored for its class. They are the same ones if
the class is not generic and the type not within an instantiation. -/
theorem Gives.instances {c : BindingId} {declared : Supertypes} (named : bindingOf? t = some c)
    (known : base.slot (.supertypes c) = .resolved declared) (given : e.Gives t s) :
    List.Forall₂ (fun d u => ∃ σ, u = d.subst σ ∧
      (t.isBare = true → (base.binding c).isGeneric = false → σ = .variable)) declared.all s.all := by
  fun_induction Gives e t s with
  | case1 b s =>
    obtain rfl : b = c := Option.some.inj named
    cases (grown.lasts.resolved (p := .supertypes b) known).symm.trans given
    exact List.forall₂_same.2 fun d _ => ⟨.variable, (Ty.subst_variable d).symm, fun _ _ => rfl⟩
  | case2 generic args enclosing s =>
    cases named
    refine (instances_of_cache grown rfl known given).imp fun d u h => ?_
    obtain ⟨σ, rfl, plain⟩ := h
    refine ⟨σ, rfl, fun bare => plain ?_⟩
    obtain rfl : enclosing = none := by simpa [Ty.isBare] using bare
    rfl
  | case3 generic enclosing s =>
    cases named
    refine (instances_of_cache grown rfl known given).imp fun d u h => ?_
    obtain ⟨σ, rfl, -⟩ := h
    exact ⟨σ, rfl, fun bare => by cases bare⟩
  | case4 role path s ih => exact ih named given
  | case5 => cases given

variable (stored : base.Stored) (given : e.Gives t s)
include stored given

theorem Gives.mirrors {c : BindingId} {declared : Supertypes} (named : bindingOf? t = some c)
    (known : base.slot (.supertypes c) = .resolved declared) :
    List.Forall₂ (fun d u => bindingOf? u = bindingOf? d ∧ base.IsClass u ∧ (d.isBare = true → u.isBare = true) ∧
      (t.isBare = true → (base.binding c).isGeneric = false → u = d)) declared.all s.all := by
  have related := given.instances grown named known
  refine ((List.forall₂_and_left _ _).2 ⟨stored.isClass known, related⟩).imp fun d u h => ?_
  obtain ⟨⟨b, named, inside⟩, σ, rfl, plain⟩ := h
  have same := Ty.bindingOf?_subst (σ := σ) named
  refine ⟨same.trans named.symm, ⟨b, same, inside⟩, Ty.isBare_subst, fun bare notGeneric => ?_⟩
  rw [plain bare notGeneric, Ty.subst_variable]

theorem Gives.bindings_eq {c : BindingId} {declared : Supertypes} (named : bindingOf? t = some c)
    (known : base.slot (.supertypes c) = .resolved declared) : s.bindings = declared.bindings :=
  filterMap_eq_of_forall₂ ((given.mirrors grown stored named known).imp fun _ _ h => h.1)

theorem Gives.all_eq {c : BindingId} {declared : Supertypes} (named : bindingOf? t = some c)
    (known : base.slot (.supertypes c) = .resolved declared) (bare : t.isBare = true)
    (plain : (base.binding c).isGeneric = false) : s.all = declared.all := by
  have related := given.mirrors grown stored named known
  exact (List.forall₂_eq_eq_eq ▸ related.imp fun _ _ h => (h.2.2.2 bare plain).symm : declared.all = s.all).symm

theorem Gives.ascends (ordered : base.Ordered) (isClass : base.IsClass t) : ∀ u ∈ s.all, base.IsClass u ∧ base.Ascends t u := by
  obtain ⟨c, named, inside⟩ := isClass
  obtain ⟨declared, known⟩ := ordered.resolved c inside
  have related := given.mirrors grown stored named known
  intro u hu
  obtain ⟨i, at_i, rfl⟩ := List.getElem_of_mem hu
  have isClass := (related.get (related.length_eq ▸ at_i) at_i).2.1
  obtain ⟨d, named', -⟩ := id isClass
  refine ⟨isClass, c, d, named, named', declared, known, ?_⟩
  rw [← given.bindings_eq grown stored named known]
  exact List.mem_filterMap.2 ⟨_, hu, named'⟩

end

theorem Gives.above (resolved : base.Resolved root) (stored : base.Stored) (grown : base.Grown e)
    (knows : base.Knows t) (given : e.Gives t s) : ∀ u ∈ s.all, base.Knows u ∧ base.Ascends t u := by
  obtain ⟨bare, isClass⟩ := knows
  obtain ⟨c, named, inside⟩ := id isClass
  obtain ⟨declared, known⟩ := resolved.resolved c inside
  have related := given.mirrors grown stored named known
  have bares := (List.forall₂_and_left _ _).2 ⟨resolved.bare c declared known, related⟩
  intro u hu
  obtain ⟨isClass', ascends⟩ := given.ascends grown stored resolved.toOrdered isClass u hu
  refine ⟨⟨?_, isClass'⟩, ascends⟩
  obtain ⟨i, at_i, rfl⟩ := List.getElem_of_mem hu
  have h := bares.get (bares.length_eq ▸ at_i) at_i
  exact h.2.2.2.1 h.1

theorem Ranged.lt_size_of_above (ranged : e.Ranged) {b c : BindingId} (above : e.Above b c) :
    c.index < e.bindings.size := by
  obtain ⟨s, known, hc⟩ := above
  exact ranged.slots (.supertypes b) s known c hc

theorem Ranged.wellFounded_above (ranged : e.Ranged) (acyclic : ∀ b, ¬Relation.TransGen e.Above b b) :
    WellFounded fun c b => e.Above b c := by
  let higher (i j : Fin e.bindings.size) : Prop := Relation.TransGen e.Above ⟨j⟩ ⟨i⟩
  have irrefl : Std.Irrefl higher := ⟨fun i => acyclic ⟨i⟩⟩
  have trans : IsTrans _ higher := ⟨fun _ _ _ h h' => h'.trans h⟩
  have inside (i : Fin e.bindings.size) : Acc (fun c b => e.Above b c) ⟨i⟩ := by
    induction i using (Finite.wellFounded_of_trans_of_irrefl higher).induction with
    | _ i ih =>
      refine .intro _ fun c above => ?_
      exact ih ⟨c.index, ranged.lt_size_of_above above⟩ (.single above)
  exact ⟨fun b => .intro b fun c above => inside ⟨c.index, ranged.lt_size_of_above above⟩⟩

def supers (e : Env) (b : BindingId) : List BindingId :=
  match (e.binding b).supertypes with
  | .resolved s => s.bindings
  | _ => []

theorem supers_of_resolved {b : BindingId} (known : e.slot (.supertypes b) = .resolved s) :
    e.supers b = s.bindings := by
  rw [supers, show (e.binding b).supertypes = _ from known]

theorem above_of_mem_supers {b c : BindingId} (hc : c ∈ e.supers b) : e.Above b c := by
  rw [supers] at hc
  split at hc
  · next s known => exact ⟨s, known, hc⟩
  · cases hc

theorem Ranged.exists_weight (ranged : e.Ranged) (acyclic : ∀ b, ¬Relation.TransGen e.Above b b) :
    ∃ weight : BindingId → Nat, ∀ b, ((e.supers b).map weight).sum < weight b := by
  have wf := ranged.wellFounded_above acyclic
  let weigh (b : BindingId) (weight : ∀ c, e.Above b c → Nat) : Nat :=
    ((e.supers b).attach.map fun c => weight c.1 (above_of_mem_supers c.2)).sum + 1
  refine ⟨wf.fix weigh, fun b => ?_⟩
  rw [wf.fix_eq]
  simp [weigh]

end Env

namespace Resolve

open Env

variable {base e : Env} {root : BindingId} {t : Ty} {s : Supertypes} {depth : Nat} {o : Oracle}

theorem typeSupertypes_triple (ordered : base.Ordered) (t : Ty) (isClass : base.IsClass t) :
    Triple 2 (base.Grown) (typeSupertypes t) fun s e => e.Gives t s ∧ base.Grown e := by
  obtain ⟨c, named, inside⟩ := isClass
  match t with
  | .declared b =>
    obtain rfl : b = c := Option.some.inj named
    refine (((Triple.ask (.supertypes b) (by simp)).frame Grown.stable).pre fun _ h => ⟨trivial, h⟩).post ?_
    rintro s e ⟨shows, grown⟩
    obtain ⟨declared, known⟩ := ordered.resolved b inside
    cases shows with
    | resolved known => exact ⟨known, grown⟩
    | inProgress begun => cases (grown.lasts.resolved (p := .supertypes b) known).symm.trans begun
  | .parameterized generic args enclosing =>
    refine ((instanceSupertypes_triple (ℓ := 0) rfl ?_).frame Grown.stable).pre fun _ h => ⟨trivial, h⟩
    exact fun _ _ => nofun
  | .raw generic enclosing =>
    refine ((instanceSupertypes_triple (ℓ := 0) rfl ?_).frame Grown.stable).pre fun _ h => ⟨trivial, h⟩
    exact fun _ _ => nofun
  | .anchored role path => exact typeSupertypes_triple ordered role ⟨c, named, inside⟩
  | .primitive _ | .null | .variable _ | .wildcard _ _ | .captured _ | .array _ => cases named

theorem supertypes_of_resolved {b : BindingId} (known : e.slot (.supertypes b) = .resolved s) :
    ask (.supertypes b) (oracle (depth + 1)) e = (.ok s, e) := by
  refine (known_bind_apply (has_of_resolved (p := .supertypes b) known (by simp))).trans ?_
  rw [show (e.binding b).supertypes = _ from known]
  rfl

theorem typeVariables_of_resolved {b : BindingId} {vars : List TypeVarId}
    (known : e.slot (.typeVariables b) = .resolved vars) :
    ask (.typeVariables b) (oracle (depth + 1)) e = (.ok vars, e) := by
  refine (known_bind_apply (has_of_resolved (p := .typeVariables b) known (by simp))).trans ?_
  rw [show (e.binding b).typeVariables = _ from known]
  rfl

theorem instanceMembers_apply (t : Ty) :
    instanceMembers t o e = (.ok ((e.instances.lookup t).getD {}), e) := rfl

theorem instanceSupertypes_of_cache {generic : BindingId} (filled : e.cache (.supertypes t) = some s) :
    instanceSupertypes t generic o e = (.ok s, e) := by
  refine (bind_apply_ok (instanceMembers_apply t)).trans ?_
  rw [show ((e.instances.lookup t).getD {}).supertypes = some s from filled]
  rfl

theorem typeSupertypes_of_gives (given : e.Gives t s) :
    typeSupertypes t (oracle (depth + 1)) e = (.ok s, e) := by
  fun_induction Gives e t s with
  | case1 b s => exact supertypes_of_resolved given
  | case2 | case3 => exact instanceSupertypes_of_cache given
  | case4 role path s ih => exact ih given
  | case5 => cases given

theorem needsRoot_eq_false {sub : Substitution} (proper : ∀ layer ∈ sub.layers, layer.isRaw = false) :
    sub.needsRoot e t = false := by
  have kept (v : TypeVarId) : sub.image? v ≠ some .erased := by
    intro erased
    obtain ⟨layer, found, erased⟩ := Option.bind_eq_some_iff.1 erased
    rw [if_neg (by simp [proper layer (List.mem_of_find?_eq_some found)])] at erased
    obtain ⟨t, -, ⟨⟩⟩ := Option.map_eq_some_iff.1 erased
  refine List.any_eq_false.2 fun v _ => ?_
  split
  · next erased => exact absurd erased (kept v)
  · simp

theorem substitute_apply {sub : Substitution} (proper : ∀ layer ∈ sub.layers, layer.isRaw = false) (t : Ty) :
    substitute sub t o e = (.ok (t.subst (sub.image e .null)), e) := by
  refine get_bind_apply.trans ?_
  rw [needsRoot_eq_false proper]
  rfl

theorem mapM_apply {α β : Type} {f : α → Resolve β} {g : α → β} (h : ∀ a, f a o e = (.ok (g a), e))
    (l : List α) : l.mapM f o e = (.ok (l.map g), e) := by
  induction l with
  | nil => rfl
  | cons a l ih =>
    rw [List.mapM_cons]
    exact (bind_apply_ok (h a)).trans (bind_apply_ok ih)

theorem instanceSupertypes_ok {generic : BindingId} {args : List Ty} {declared : Supertypes}
    {vars : List TypeVarId} (known : e.slot (.supertypes generic) = .resolved declared)
    (published : e.slot (.typeVariables generic) = .resolved vars) :
    ∃ s e', instanceSupertypes (.parameterized generic args none) generic (oracle (depth + 1)) e =
      (.ok s, e') := by
  cases filled : ((e.instances.lookup (.parameterized generic args none)).getD {}).supertypes with
  | some s => exact ⟨s, e, instanceSupertypes_of_cache filled⟩
  | none =>
    have sub : substitutionFor (.parameterized generic args none) (oracle (depth + 1)) e =
        (.ok ⟨[{ vars, args }]⟩, e) := by
      rw [substitutionFor, substitutionForOption]
      exact bind_apply_ok (typeVariables_of_resolved published)
    have proper : ∀ layer ∈ (⟨[{ vars, args }]⟩ : Substitution).layers, layer.isRaw = false := by simp
    have interfaces := mapM_apply (substitute_apply (o := oracle (depth + 1)) (e := e) proper)
      declared.interfaces
    unfold instanceSupertypes
    simp only [bind_apply_ok (instanceMembers_apply _), filled, bind_apply_ok (supertypes_of_resolved known),
      bind_apply_ok sub]
    cases declared.superclass with
    | none => exact ⟨_, _, bind_apply_ok interfaces⟩
    | some c =>
      have superclass := substitute_apply (o := oracle (depth + 1)) (e := e) proper c
      exact ⟨_, _, (bind_apply_ok (bind_apply_ok superclass)).trans (bind_apply_ok interfaces)⟩

theorem typeSupertypes_ok (ordered : base.Ordered) (all : base.VarsResolved) (t : Ty)
    (knows : base.Knows t) (grown : base.Grown e) :
    ∃ s e', typeSupertypes t (oracle (depth + 1)) e = (.ok s, e') := by
  obtain ⟨bare, c, named, inside⟩ := knows
  obtain ⟨declared, known⟩ := ordered.resolved c inside
  obtain ⟨vars, published⟩ := all c inside
  have known : e.slot (.supertypes c) = .resolved declared := grown.lasts.resolved known
  have published : e.slot (.typeVariables c) = .resolved vars := grown.lasts.resolved published
  match t with
  | .declared b =>
    cases named
    exact ⟨declared, e, supertypes_of_resolved known⟩
  | .parameterized generic args enclosing =>
    cases named
    obtain rfl : enclosing = none := by simpa [Ty.isBare] using bare
    exact instanceSupertypes_ok known published
  | .anchored role path =>
    exact typeSupertypes_ok ordered all role ⟨bare, c, named, inside⟩ grown
  | .raw generic enclosing => cases bare
  | .primitive _ | .null | .variable _ | .wildcard _ _ | .captured _ | .array _ => cases named

theorem typeSupertypes_answers (ordered : base.Ordered) (t : Ty) (knows : base.Knows t)
    {F : Env → Prop} (stable : Stable 2 F) (grown : ∀ e, F e → base.Grown e) {short : Prop}
    (enough : ¬short → base.VarsResolved ∧ depth ≠ 0) :
    Answers (oracle depth) F (typeSupertypes t) (fun s e => e.Gives t s ∧ F e) short := by
  have given : Triple 2 F (typeSupertypes t) fun s e => e.Gives t s ∧ F e :=
    ((typeSupertypes_triple ordered t knows.2).framed stable grown).post fun _ _ h => ⟨h.1.1, h.2⟩
  refine .of_triple given fun e h => ⟨fun _ _ _ => trivial, fun cause e' failed => ?_⟩
  by_contra long
  obtain ⟨all, deep⟩ := enough long
  obtain ⟨d, rfl⟩ := Nat.exists_eq_succ_of_ne_zero deep
  obtain ⟨s, _, answered⟩ := typeSupertypes_ok ordered all t knows (grown e h)
  cases answered.symm.trans failed

end Resolve

end TeamRoles
