import TeamRoles.Precedence.Basic
import TeamRoles.Proofs.Env.Evolution

/-!
What an environment keeps once it is computed: slots, which are marked while they are computed, and
caches, which are not.
-/

namespace TeamRoles

inductive Part where
  | supertypes (b : BindingId)
  | memberTypes (b : BindingId)
  | typeVariables (b : BindingId)
  | fields (b : BindingId)
  | methods (b : BindingId)
  | baseClass (b : BindingId)
  | tsuperRoles (role : BindingId)
  | mappings (role : BindingId)
  | imports (u : UnitId)
  deriving DecidableEq

abbrev Part.Value : Part → Type
  | .supertypes _ => Supertypes
  | .memberTypes _ => List BindingId
  | .typeVariables _ => List TypeVarId
  | .fields _ => List FieldId
  | .methods _ => List MethodId
  | .baseClass _ => Option Ty
  | .tsuperRoles _ => List BindingId
  | .mappings _ => List MappingId
  | .imports _ => Imports

inductive Cache where
  | supertypes (t : Ty)
  | fields (t : Ty)
  | methods (t : Ty)
  | memberTypes (t : Ty)
  | precedence (team : BindingId)
  deriving DecidableEq

abbrev Cache.Value : Cache → Type
  | .supertypes _ => Supertypes
  | .fields _ => List FieldId
  | .methods _ => List MethodId
  | .memberTypes _ => List Ty
  | .precedence _ => PrecedenceTable

namespace Binding

def tsuperRoles (x : Binding) : Slot (List BindingId) :=
  match x.role with
  | some model => model.tsuperRoles
  | none => .unresolved

def bare (x : Binding) : Binding :=
  { x with
    supertypes := .unresolved, memberTypes := .unresolved, typeVariables := .unresolved
    fields := .unresolved, methods := .unresolved, baseClass := .unresolved
    hierarchyHasProblems := false
    role := x.role.map ({ · with tsuperRoles := .unresolved }) }

end Binding

namespace Env

def updateUnit (e : Env) (u : UnitId) (f : SourceUnit → SourceUnit) : Env :=
  { e with units := e.units.modify u.index f }

def updateInstance (e : Env) (t : Ty) (f : InstanceMembers → InstanceMembers) : Env :=
  { e with instances := (t, f ((e.instances.lookup t).getD {})) :: e.instances.filter (·.1 != t) }

def slot (e : Env) : (p : Part) → Slot p.Value
  | .supertypes b => (e.binding b).supertypes
  | .memberTypes b => (e.binding b).memberTypes
  | .typeVariables b => (e.binding b).typeVariables
  | .fields b => (e.binding b).fields
  | .methods b => (e.binding b).methods
  | .baseClass b => (e.binding b).baseClass
  | .tsuperRoles role => (e.binding role).tsuperRoles
  | .mappings role => (e.roleMappings.lookup role).getD .unresolved
  | .imports u => (e.unit u).imports

def setSlot (e : Env) : (p : Part) → Slot p.Value → Env
  | .supertypes b, s => e.setSupertypes b s
  | .memberTypes b, s => e.update b ({ · with memberTypes := s })
  | .typeVariables b, s => e.update b ({ · with typeVariables := s })
  | .fields b, s => e.update b ({ · with fields := s })
  | .methods b, s => e.update b ({ · with methods := s })
  | .baseClass b, s => e.update b ({ · with baseClass := s })
  | .tsuperRoles role, s =>
    e.update role fun x => { x with role := x.role.map ({ · with tsuperRoles := s }) }
  | .mappings role, s =>
    { e with roleMappings := (role, s) :: e.roleMappings.filter (·.1 != role) }
  | .imports u, s => e.updateUnit u ({ · with imports := s })

def cache (e : Env) : (c : Cache) → Option c.Value
  | .supertypes t => ((e.instances.lookup t).getD {}).supertypes
  | .fields t => ((e.instances.lookup t).getD {}).fields
  | .methods t => ((e.instances.lookup t).getD {}).methods
  | .memberTypes t => ((e.instances.lookup t).getD {}).memberTypes
  | .precedence team => e.precedence.lookup team

def setCache (e : Env) : (c : Cache) → c.Value → Env
  | .supertypes t, v => e.updateInstance t ({ · with supertypes := some v })
  | .fields t, v => e.updateInstance t ({ · with fields := some v })
  | .methods t, v => e.updateInstance t ({ · with methods := some v })
  | .memberTypes t, v => e.updateInstance t ({ · with memberTypes := some v })
  | .precedence team, v => { e with precedence := (team, v) :: e.precedence }

def Has (e : Env) : Part → Prop
  | .tsuperRoles role => (e.binding role).role.isSome
  | .mappings role => (e.binding role).isRole = true
  | .imports u => u.index < e.units.size
  | .supertypes b | .memberTypes b | .typeVariables b | .fields b | .methods b | .baseClass b =>
    b.index < e.bindings.size

structure SameFrame (e e' : Env) : Prop where
  options : e'.options = e.options
  provider : e'.provider = e.provider
  size : e'.bindings.size = e.bindings.size
  bare : ∀ b, (e'.binding b).bare = (e.binding b).bare
  units : e.units.size ≤ e'.units.size
  byName : e'.byName = e.byName
  problems : e'.problemBindings = e.problemBindings
  missing : e'.missing = e.missing
  mappings : e'.mappings = e.mappings
  methods : e'.methods = e.methods
  caches : ∀ c, e'.cache c = e.cache c

theorem SameFrame.proj_eq {α : Type} {e e' : Env} {g : Binding → α} (h : e.SameFrame e')
    (bare : ∀ x, g (Binding.bare x) = g x) (b : BindingId) : g (e'.binding b) = g (e.binding b) := by
  rw [← bare, h.bare, bare]

structure Same (e e' : Env) : Prop extends SameFrame e e' where
  slots : ∀ p, e'.slot p = e.slot p

section Updates

variable {e : Env} {b c : BindingId} {f : Binding → Binding}

theorem lt_size_of_ne_default (h : e.binding b ≠ default) : b.index < e.bindings.size :=
  Nat.lt_of_not_le fun outside => h (binding_of_size_le outside)

theorem binding_update :
    (e.update b f).binding c =
      if c = b ∧ b.index < e.bindings.size then f (e.binding c) else e.binding c := by
  split
  next h =>
    obtain ⟨rfl, inside⟩ := h
    exact binding_update_self inside
  next h =>
    by_cases same : c = b
    · subst same
      have outside : e.bindings.size ≤ c.index := Nat.le_of_not_lt fun inside => h ⟨rfl, inside⟩
      rw [binding_of_size_le outside, binding_of_size_le (by rwa [size_update])]
    · exact binding_update_of_ne same

theorem unit_updateUnit {u v : UnitId} {f : SourceUnit → SourceUnit} :
    (e.updateUnit u f).unit v =
      if v = u ∧ u.index < e.units.size then f (e.unit v) else e.unit v := by
  cases u
  cases v
  simp only [unit, updateUnit, Array.getElem?_modify]
  grind

theorem imports_updateUnit {u v : UnitId} {f : SourceUnit → SourceUnit}
    (h : v = u → ∀ x, (f x).imports = x.imports) :
    ((e.updateUnit u f).unit v).imports = (e.unit v).imports := by
  rw [unit_updateUnit]
  split
  next inside => exact h inside.1 _
  next => rfl

theorem mem_of_lookup {α β : Type} [BEq α] [LawfulBEq α] {l : List (α × β)} {k : α} {v : β}
    (h : l.lookup k = some v) : (k, v) ∈ l := by
  obtain ⟨front, back, rfl, -⟩ := List.lookup_eq_some_iff.1 h
  simp

theorem lookup_filter_of_ne {α β : Type} [BEq α] [LawfulBEq α] {l : List (α × β)} {k k' : α}
    (h : k' ≠ k) : (l.filter (·.1 != k)).lookup k' = l.lookup k' := by
  induction l with
  | nil => rfl
  | cons entry l ih =>
    obtain ⟨key, value⟩ := entry
    by_cases hk : key = k
    · subst hk
      have other : (k' == key) = false := by simpa using h
      simp [List.lookup_cons, other, ih]
    · simp [List.lookup_cons, hk, ih]

theorem lookup_put {α β : Type} [BEq α] [LawfulBEq α] {l : List (α × β)} {k k' : α} {v : β} :
    ((k, v) :: l.filter (·.1 != k)).lookup k' = if k' == k then some v else l.lookup k' := by
  by_cases same : k' = k
  · simp [same]
  · have other : (k' == k) = false := by simpa using same
    simp [List.lookup_cons, other, lookup_filter_of_ne same]

end Updates

section Slots

variable {e : Env} {p q : Part} {s : Slot p.Value}

theorem slot_of_get? {v : p.Value} (h : (e.slot p).get? = some v) :
    e.slot p = .resolved v := by
  cases stored : e.slot p with
  | resolved w =>
    rw [stored] at h
    exact congrArg _ (Option.some.inj h)
  | _ =>
    rw [stored] at h
    cases h

theorem has_of_resolved {p : Part} {v : p.Value} (h : e.slot p = .resolved v)
    (other : ∀ role, p ≠ .mappings role) : e.Has p := by
  cases p with
  | tsuperRoles role =>
    simp only [slot, Binding.tsuperRoles] at h
    split at h
    · next model given => exact Option.isSome_iff_exists.2 ⟨model, given⟩
    · cases h
  | mappings role => exact absurd rfl (other role)
  | imports u =>
    refine Nat.lt_of_not_le fun outside => ?_
    rw [slot, unit, Array.getElem?_eq_none outside] at h
    cases h
  | supertypes b | memberTypes b | typeVariables b | fields b | methods b | baseClass b =>
    refine lt_size_of_ne_default fun default => ?_
    simp only [slot, default] at h
    cases h

theorem slot_setSlot_self (h : e.Has p) : (e.setSlot p s).slot p = s := by
  cases p with
  | tsuperRoles role =>
    obtain ⟨model, hm⟩ := Option.isSome_iff_exists.1 h
    have inside : role.index < e.bindings.size := by
      refine lt_size_of_ne_default fun default => ?_
      rw [default] at hm
      cases hm
    simp only [slot, setSlot, binding_update_self inside, Binding.tsuperRoles, hm, Option.map_some]
  | mappings role => simp [slot, setSlot]
  | imports u =>
    have inside : u.index < e.units.size := h
    simp [slot, setSlot, unit_updateUnit, inside]
  | supertypes b | memberTypes b | typeVariables b | fields b | methods b | baseClass b =>
    have inside : b.index < e.bindings.size := h
    simp only [slot, setSlot, setSupertypes, binding_update_self inside]

theorem slot_setSlot_of_ne (h : q ≠ p) : (e.setSlot p s).slot q = e.slot q := by
  cases p with
  | mappings role =>
    cases q with
    | mappings other =>
      have other : (other == role) = false := by simpa using h
      simp [slot, setSlot, lookup_put, other]
    | _ => rfl
  | imports u =>
    cases q with
    | imports v => exact imports_updateUnit fun same => absurd (congrArg Part.imports same) h
    | _ => rfl
  | _ =>
    -- Another part of the same type is not touched, nor is the same part of another type.
    cases q with
    | mappings other | imports u => rfl
    | _ =>
      simp only [slot, setSlot, setSupertypes]
      first
      | rw [binding_update_of_ne fun same => h (congrArg _ same)]
      | exact binding_update_proj (by exact fun _ => rfl) _

theorem sameFrame_setSlot : e.SameFrame (e.setSlot p s) := by
  have frame (b : BindingId) (f : Binding → Binding) (h : ∀ x, (f x).bare = x.bare) :
      e.SameFrame (e.update b f) :=
    ⟨rfl, rfl, size_update, binding_update_proj h, Nat.le_refl _, rfl, rfl, rfl, rfl, rfl, fun _ => rfl⟩
  cases p with
  | mappings role =>
    exact ⟨rfl, rfl, rfl, fun _ => rfl, Nat.le_refl _, rfl, rfl, rfl, rfl, rfl, fun _ => rfl⟩
  | imports u =>
    have units : e.units.size ≤ (e.units.modify u.index ({ · with imports := s })).size :=
      Nat.le_of_eq Array.size_modify.symm
    exact ⟨rfl, rfl, rfl, fun _ => rfl, units, rfl, rfl, rfl, rfl, rfl, fun _ => rfl⟩
  | tsuperRoles role =>
    refine frame role _ fun x => ?_
    simp [Binding.bare, Function.comp_def]
  | _ => exact frame _ _ fun _ => rfl

end Slots

section Changes

variable {e e' : Env}

def kept (e : Env) :=
  (e.options, e.provider, e.bindings, e.units, e.byName, e.problemBindings, e.missing, e.mappings,
    e.methods, e.instances, e.roleMappings, e.precedence)

theorem same_of_kept (h : e'.kept = e.kept) : e.Same e' := by
  obtain ⟨options, provider, bindings, units, byName, problems, missing, mappings, methods,
      instances, roleMappings, precedence⟩ :
      e'.options = e.options ∧ e'.provider = e.provider ∧ e'.bindings = e.bindings ∧
        e'.units = e.units ∧ e'.byName = e.byName ∧ e'.problemBindings = e.problemBindings ∧
        e'.missing = e.missing ∧ e'.mappings = e.mappings ∧ e'.methods = e.methods ∧
        e'.instances = e.instances ∧ e'.roleMappings = e.roleMappings ∧
        e'.precedence = e.precedence := by
    simpa only [kept, Prod.mk.injEq] using h
  have binding (b : BindingId) : e'.binding b = e.binding b := by
    rw [Env.binding, bindings, Env.binding]
  refine ⟨⟨options, provider, congrArg Array.size bindings, fun b => by rw [binding], ?_, byName,
    problems, missing, mappings, methods, fun c => ?_⟩, fun p => ?_⟩
  · exact Nat.le_of_eq (congrArg Array.size units.symm)
  · cases c <;> simp only [cache, instances, precedence]
  · cases p <;> simp only [slot, binding, roleMappings, unit, units]

theorem same_updateUnit {u : UnitId} {f : SourceUnit → SourceUnit}
    (h : ∀ x, (f x).imports = x.imports) : e.Same (e.updateUnit u f) := by
  have units : e.units.size ≤ (e.units.modify u.index f).size :=
    Nat.le_of_eq Array.size_modify.symm
  refine ⟨⟨rfl, rfl, rfl, fun _ => rfl, units, rfl, rfl, rfl, rfl, rfl, fun _ => rfl⟩, fun p => ?_⟩
  cases p with
  | imports v => exact imports_updateUnit fun _ => h
  | _ => rfl

theorem same_addUnit {u : SourceUnit} (fresh : u.imports = .unresolved) :
    e.Same { e with units := e.units.push u } := by
  have units : e.units.size ≤ (e.units.push u).size := by simp
  refine ⟨⟨rfl, rfl, rfl, fun _ => rfl, units, rfl, rfl, rfl, rfl, rfl, fun _ => rfl⟩, fun p => ?_⟩
  cases p with
  | imports v =>
    simp only [slot, unit, Array.getElem?_push]
    split
    next new =>
      rw [new, Array.getElem?_eq_none (Nat.le_refl _), Option.getD_some, fresh]
      rfl
    next => rfl
  | _ => rfl

theorem same_markProblems {b : BindingId} :
    e.Same (e.update b ({ · with hierarchyHasProblems := true })) := by
  refine ⟨⟨rfl, rfl, size_update, binding_update_proj fun _ => rfl, Nat.le_refl _, rfl, rfl, rfl,
    rfl, rfl, fun _ => rfl⟩, fun p => ?_⟩
  cases p with
  | mappings role | imports u => rfl
  | _ =>
    simp only [slot, binding_update]
    split <;> rfl

end Changes

section Caches

variable {e : Env} {c d : Cache} {v : c.Value}

theorem lookup_updateInstance {t u : Ty} {f : InstanceMembers → InstanceMembers} :
    ((e.updateInstance t f).instances.lookup u).getD {} =
      if u = t then f ((e.instances.lookup u).getD {}) else (e.instances.lookup u).getD {} := by
  simp only [updateInstance, lookup_put, beq_iff_eq]
  split
  next same => rw [same, Option.getD_some]
  next => rfl

theorem cache_setCache_self : (e.setCache c v).cache c = some v := by
  cases c with
  | precedence team => simp [cache, setCache]
  | _ => simp [cache, setCache, lookup_updateInstance]

theorem cache_setCache_of_ne (h : d ≠ c) : (e.setCache c v).cache d = e.cache d := by
  cases c with
  | precedence team =>
    cases d with
    | precedence other =>
      have other : (other == team) = false := by simpa using h
      simp [cache, setCache, List.lookup_cons, other]
    | _ => rfl
  | _ =>
    cases d with
    | precedence team => rfl
    | _ =>
      simp only [cache, setCache, lookup_updateInstance]
      split
      · next same => first | rfl | exact absurd (congrArg _ same) h
      · rfl

end Caches

end Env

end TeamRoles
