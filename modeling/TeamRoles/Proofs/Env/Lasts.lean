import TeamRoles.Proofs.Env.Runs

/-!
What a run leaves as it finds it: names, origins, mappings and methods last, and so does every slot that
has been begun and every cache that has been filled.
-/

namespace TeamRoles

def Binding.head (x : Binding) : Binding := { x.bare with team := none }

namespace Env

structure Lasts (e e' : Env) : Prop where
  options : e'.options = e.options
  provider : e'.provider = e.provider
  size : e.bindings.size ≤ e'.bindings.size
  head : ∀ b, b.index < e.bindings.size → (e'.binding b).head = (e.binding b).head
  units : e.units.size ≤ e'.units.size
  byName : ∀ entry ∈ e.byName, entry ∈ e'.byName
  problems : ∀ entry ∈ e.problemBindings, entry ∈ e'.problemBindings
  mappings : e.mappings.toList <+: e'.mappings.toList
  methods : e.MethodsLast e'
  slots : ∀ p, e.slot p ≠ .unresolved → e'.slot p = e.slot p
  caches : ∀ c v, e.cache c = some v → e'.cache c = some v

namespace Lasts

variable {e e' e'' : Env} {b : BindingId}

theorem refl (e : Env) : e.Lasts e := by
  have methods : e.MethodsLast e := .of_eq rfl
  constructor <;> simp [methods]

theorem resolved {p : Part} {v : p.Value} (h : e.Lasts e') (known : e.slot p = .resolved v) :
    e'.slot p = .resolved v := by
  rw [h.slots p (by simp [known]), known]

theorem trans (h : e.Lasts e') (h' : e'.Lasts e'') : e.Lasts e'' where
  options := h'.options.trans h.options
  provider := h'.provider.trans h.provider
  size := Nat.le_trans h.size h'.size
  head b hb := (h'.head b (Nat.lt_of_lt_of_le hb h.size)).trans (h.head b hb)
  units := Nat.le_trans h.units h'.units
  byName entry he := h'.byName entry (h.byName entry he)
  problems entry he := h'.problems entry (h.problems entry he)
  mappings := h.mappings.trans h'.mappings
  methods := h.methods.trans h'.methods fun _ _ => h.resolved
  slots p hp := by
    rw [h'.slots p (by rwa [h.slots p hp]), h.slots p hp]
  caches c v hv := h'.caches c v (h.caches c v hv)

theorem proj_eq {α : Type} {g : Binding → α} (h : e.Lasts e') (head : ∀ x, g (Binding.head x) = g x)
    (hb : b.index < e.bindings.size) : g (e'.binding b) = g (e.binding b) := by
  rw [← head, h.head b hb, head]

theorem name_eq (h : e.Lasts e') (hb : b.index < e.bindings.size) :
    (e'.binding b).name = (e.binding b).name :=
  h.proj_eq (fun _ => rfl) hb

theorem origin_eq (h : e.Lasts e') (hb : b.index < e.bindings.size) :
    (e'.binding b).origin = (e.binding b).origin :=
  h.proj_eq (fun _ => rfl) hb

theorem modifiers_eq (h : e.Lasts e') (hb : b.index < e.bindings.size) :
    (e'.binding b).modifiers = (e.binding b).modifiers :=
  h.proj_eq (fun _ => rfl) hb

theorem mapping_eq {m : MappingId} (h : e.Lasts e') (inside : m.index < e.mappings.size) :
    e'.mapping m = e.mapping m := by
  obtain ⟨more, grown⟩ := h.mappings
  rw [mapping, mapping, ← Array.getElem?_toList, ← Array.getElem?_toList, ← grown,
    List.getElem?_append_left inside]

end Lasts

theorem Namesakes.of_lasts {e e' : Env} {b c : BindingId} (h : e.Namesakes b c) (lasts : e.Lasts e') :
    e'.Namesakes b c := by
  obtain ⟨⟨left, right⟩, same⟩ := h
  refine ⟨⟨Nat.lt_of_lt_of_le left lasts.size, Nat.lt_of_lt_of_le right lasts.size⟩, ?_⟩
  rw [Binding.simpleName, Binding.simpleName, lasts.name_eq left, lasts.name_eq right]
  exact same

theorem OwnsMapping.of_lasts {e e' : Env} {role : BindingId} {m : MappingId}
    (h : e.OwnsMapping role m) (lasts : e.Lasts e') : e'.OwnsMapping role m := by
  obtain ⟨inside, owner⟩ := h
  exact ⟨Nat.lt_of_lt_of_le inside lasts.mappings.length_le, by rw [lasts.mapping_eq inside, owner]⟩

theorem Lasts.extends {e e' : Env} (h : e.Lasts e') : e.Extends e' where
  options := h.options
  provider := h.provider
  size := h.size
  name _ := h.name_eq
  origin _ := h.origin_eq
  supertypes b hb := h.slots (.supertypes b) hb
  byName := h.byName
  problems := h.problems

theorem lt_size_of_role_isSome {e : Env} {b : BindingId} (h : (e.binding b).role.isSome) :
    b.index < e.bindings.size := by
  refine lt_size_of_ne_default fun default => ?_
  rw [default] at h
  cases h

theorem lt_size_of_isRole {e : Env} {b : BindingId} (h : (e.binding b).isRole = true) :
    b.index < e.bindings.size := by
  refine lt_size_of_ne_default fun default => ?_
  rw [default] at h
  cases h

theorem lt_size_of_isTeam {e : Env} {b : BindingId} (h : (e.binding b).isTeam = true) :
    b.index < e.bindings.size := by
  refine lt_size_of_ne_default fun default => ?_
  rw [default] at h
  cases h

theorem Lasts.isTeam_eq {e e' : Env} {b : BindingId} (h : e.Lasts e')
    (isTeam : (e.binding b).isTeam = true) : (e'.binding b).isTeam = true := by
  rw [Binding.isTeam, h.modifiers_eq (lt_size_of_isTeam isTeam)]
  exact isTeam

theorem Lasts.isRole_eq {e e' : Env} {b : BindingId} (h : e.Lasts e')
    (isRole : (e.binding b).isRole = true) : (e'.binding b).isRole = true := by
  rw [Binding.isRole, h.modifiers_eq (lt_size_of_isRole isRole)]
  exact isRole

theorem Lasts.has {e e' : Env} {p : Part} (h : e.Lasts e') (has : e.Has p) : e'.Has p := by
  cases p with
  | tsuperRoles role =>
    have kept := congrArg (fun x => x.role.isSome) (h.head role (lt_size_of_role_isSome has))
    simp only [Binding.head, Binding.bare, Option.isSome_map] at kept
    exact kept.trans has
  | mappings role => exact h.isRole_eq has
  | imports u => exact Nat.lt_of_lt_of_le has h.units
  | _ => exact Nat.lt_of_lt_of_le has h.size

theorem Linked.lt_size_of_lasts {e e' : Env} {b : BindingId} {m : MethodId} {list : List MethodId}
    (h : e'.Linked) (lasts : e.Lasts e') (resolved : e.slot (.methods b) = .resolved list)
    (mem : m ∈ list) : m.index < e.methods.size := by
  have owns := h.listed b list (lasts.resolved resolved) m mem
  refine Nat.lt_of_not_le fun outside => ?_
  refine lasts.methods.fresh m list outside owns.inside owns.proper ?_
  rwa [owns.declaring]

section Steps

variable {e e' : Env} {b : BindingId} {x : Binding} {p : Part} {s : Slot p.Value}

theorem SameFrame.head (h : e.SameFrame e') (b : BindingId) :
    (e'.binding b).head = (e.binding b).head :=
  congrArg (fun x => { x with team := none }) (h.bare b)

theorem SameFrame.lasts (h : e.SameFrame e')
    (slots : ∀ p, e.slot p ≠ .unresolved → e'.slot p = e.slot p) : e.Lasts e' where
  options := h.options
  provider := h.provider
  size := Nat.le_of_eq h.size.symm
  head b _ := h.head b
  units := h.units
  byName entry he := by rwa [h.byName]
  problems entry he := by rwa [h.problems]
  mappings := ⟨[], by rw [h.mappings, List.append_nil]⟩
  methods := .of_eq h.methods
  slots := slots
  caches c v hv := by rwa [h.caches]

theorem Same.lasts (h : e.Same e') : e.Lasts e' := h.toSameFrame.lasts fun p _ => h.slots p

theorem slot_addBinding_of_begun (h : e.slot p ≠ .unresolved) :
    (e.addBinding x).slot p = e.slot p := by
  have same (b : BindingId) (begun : e.binding b ≠ default) :
      (e.addBinding x).binding b = e.binding b := by
    refine binding_addBinding_of_ne ?_
    rintro rfl
    exact begun (binding_of_size_le (Nat.le_refl _))
  cases p with
  | mappings role | imports u => rfl
  | _ =>
    simp only [slot] at h ⊢
    rw [same _ fun default => h (by rw [default]; rfl)]

theorem slot_addBinding_of_bare (h : x.bare = x) : (e.addBinding x).slot p = e.slot p := by
  have same (b : BindingId) : (e.addBinding x).binding b = e.binding b ∨
      (e.addBinding x).binding b = x ∧ e.binding b = default := by
    by_cases new : b = e.nextBinding
    · subst new
      exact .inr ⟨binding_addBinding_self, binding_of_size_le (Nat.le_refl _)⟩
    · exact .inl (binding_addBinding_of_ne new)
  have bareRoles : x.tsuperRoles = .unresolved := by
    rw [← h, Binding.tsuperRoles, Binding.bare]
    cases x.role <;> rfl
  cases p with
  | mappings role | imports u => rfl
  | tsuperRoles role =>
    simp only [slot]
    rcases same role with kept | ⟨new, old⟩
    · rw [kept]
    · rw [new, old, bareRoles]
      rfl
  | supertypes b | memberTypes b | typeVariables b | fields b | methods b | baseClass b =>
    simp only [slot]
    rcases same b with kept | ⟨new, old⟩
    · rw [kept]
    · rw [new, old, ← h]
      rfl

theorem lasts_addBinding : e.Lasts (e.addBinding x) where
  options := rfl
  provider := rfl
  size := by simp [addBinding]
  head b hb := by
    rw [binding_addBinding_of_ne]
    rintro rfl
    exact Nat.lt_irrefl _ hb
  units := Nat.le_refl _
  byName _ he := he
  problems _ he := he
  mappings := List.prefix_refl _
  methods := .of_eq rfl
  slots _ := slot_addBinding_of_begun
  caches _ _ hv := hv

theorem lasts_bindName {name : String} : e.Lasts (e.bindName name b) :=
  { Lasts.refl e with byName := fun _ => List.mem_cons_of_mem _, methods := .of_eq rfl }

theorem lasts_addMapping {m : Mapping} : e.Lasts (e.addMapping m) :=
  { Lasts.refl e with mappings := by simp [addMapping], methods := .of_eq rfl }

theorem Lasts.of_methods {methods : Array Method} (h : e.MethodsLast { e with methods }) :
    e.Lasts { e with methods } :=
  { Lasts.refl e with methods := h }

theorem slot_addRoleFile {team : BindingId} {unit : UnitId} {roles : List BindingId} (p : Part) :
    (e.addRoleFile team unit roles).slot p = e.slot p := by
  cases p with
  | mappings role | imports u => rfl
  | _ =>
    simp only [slot, addRoleFile]
    exact binding_update_proj (by exact fun _ => rfl) _

theorem lasts_addRoleFile {team : BindingId} {unit : UnitId} {roles : List BindingId} :
    e.Lasts (e.addRoleFile team unit roles) :=
  { Lasts.refl e with
    size := Nat.le_of_eq size_update.symm
    head := fun b _ => by
      rw [addRoleFile, binding_update]
      split <;> rfl
    methods := .of_eq rfl
    slots := fun p _ => slot_addRoleFile p }

theorem lasts_setCache {c : Cache} {v : c.Value} (empty : e.cache c = none) :
    e.Lasts (e.setCache c v) := by
  have caches (d : Cache) (w : d.Value) (filled : e.cache d = some w) :
      (e.setCache c v).cache d = some w := by
    rw [cache_setCache_of_ne, filled]
    rintro rfl
    rw [empty] at filled
    cases filled
  cases c <;> exact { Lasts.refl e with methods := .of_eq rfl, caches := caches }

theorem Lasts.of_setSlot (fresh : e.slot p = .unresolved) (h : (e.setSlot p s).Lasts e') :
    e.Lasts e' := by
  refine .trans (sameFrame_setSlot.lasts fun q begun => slot_setSlot_of_ne ?_) h
  rintro rfl
  exact begun fresh

theorem Lasts.setSlot (fresh : e.slot p = .unresolved) (h : e.Lasts e') :
    e.Lasts (e'.setSlot p s) := by
  have frame : e'.SameFrame (e'.setSlot p s) := sameFrame_setSlot
  refine { h with
    options := frame.options.trans h.options
    provider := frame.provider.trans h.provider
    size := Nat.le_trans h.size (Nat.le_of_eq frame.size.symm)
    head := fun b hb => (frame.head b).trans (h.head b hb)
    units := Nat.le_trans h.units frame.units
    byName := fun entry he => by rw [frame.byName]; exact h.byName entry he
    problems := fun entry he => by rw [frame.problems]; exact h.problems entry he
    mappings := by rw [frame.mappings]; exact h.mappings
    methods := h.methods.trans (.of_eq frame.methods) fun _ _ => h.resolved
    slots := fun q begun => ?_
    caches := fun c v hv => by rw [frame.caches]; exact h.caches c v hv }
  rw [slot_setSlot_of_ne, h.slots q begun]
  rintro rfl
  exact begun fresh

end Steps

end Env

theorem Step.lasts {ℓ : Nat} {e e' : Env} (h : Step ℓ e e') : e.Lasts e' := by
  cases h with
  | quiet same => exact same.lasts
  | declare =>
    exact .trans (.trans Env.lasts_addBinding Env.lasts_bindName)
      { Env.Lasts.refl _ with methods := .of_eq rfl }
  | load => exact Env.lasts_addBinding.trans Env.lasts_bindName
  | otherName => exact Env.lasts_bindName
  | @standIn name reason =>
    exact { @Env.lasts_addBinding e (.standIn name reason) with
      problems := fun _ => List.mem_cons_of_mem _, methods := .of_eq rfl }
  | corrupt => exact Env.lasts_bindName
  | missing => exact { Env.Lasts.refl e with methods := .of_eq rfl }
  | roleFile => exact Env.lasts_addRoleFile
  | methods _ lasts => exact .of_methods lasts
  | mapping => exact Env.lasts_addMapping
  | store _ awaits _ => exact Env.lasts_setCache awaits.1

theorem Runs.lasts {ℓ : Nat} {e e' : Env} {r : Option Abort} (h : Runs ℓ e r e') :
    e.Lasts e' := by
  induction h with
  | done => exact .refl _
  | stop _ => exact .refl _
  | reentrant => exact .refl _
  | step h => exact h.lasts
  | seq _ _ ih ih' => exact ih.trans ih'
  | cleanup _ same ih => exact ih.trans same.lasts
  | resolve _ _ fresh _ _ ih => exact (ih.of_setSlot fresh).setSlot fresh
  | abort _ _ fresh _ ih => exact ih.of_setSlot fresh

theorem Runs.keeps {ℓ : Nat} {e e' : Env} {r : Option Abort} {I : Env → Prop} (h : Runs ℓ e r e')
    (step : ∀ {e e'}, Step ℓ e e' → I e → I e')
    (begin : ∀ {e} (p : Part), e.Has p → e.slot p = .unresolved → I e → I (e.setSlot p .inProgress))
    (finish : ∀ {e} (p : Part) (v : p.Value), e.Has p → e.slot p = .inProgress →
      (∃ begun, I begun ∧ p.Allows begun v e) → I e → I (e.setSlot p (.resolved v)))
    (start : I e) : I e' := by
  induction h with
  | done => exact start
  | stop _ => exact start
  | reentrant => exact start
  | step h => exact step h start
  | seq _ _ ih ih' => exact ih' step (ih step start)
  | cleanup _ same ih => exact step (.quiet same) (ih step start)
  | @resolve _ e e' p v level has fresh run allows ih =>
    have inner : p.inner ≤ _ := Nat.le_trans p.inner_le_level level
    have begun : (e.setSlot p .inProgress).slot p = .inProgress := Env.slot_setSlot_self has
    have pending : e'.slot p = .inProgress := by rw [run.lasts.slots p (by simp [begun]), begun]
    refine finish p v ((run.lasts.of_setSlot fresh).has has) pending ⟨e, start, allows⟩ ?_
    exact ih (fun h => step (h.mono inner)) (begin p has fresh start)
  | @abort _ e e' p _ level has fresh _ ih =>
    have inner : p.inner ≤ _ := Nat.le_trans p.inner_le_level level
    exact ih (fun h => step (h.mono inner)) (begin p has fresh start)

theorem Runs.keeps_of_steps {ℓ m : Nat} {e e' : Env} {r : Option Abort} {I : Env → Prop}
    (h : Runs ℓ e r e') (lowest : ℓ = 0) (step : ∀ {e e'}, Step m e e' → I e → I e') (start : I e) :
    I e' := by
  induction h with
  | done | stop | reentrant => exact start
  | step h => exact step (h.mono (lowest ▸ Nat.zero_le m)) start
  | seq _ _ ih ih' => exact ih' lowest (ih lowest start)
  | cleanup _ same ih => exact step (.quiet same) (ih lowest start)
  | @resolve _ _ _ p _ level | @abort _ _ _ p _ level =>
    exact absurd (Nat.lt_of_lt_of_le p.level_pos level) (by simp [lowest])

theorem Cache.Allows.of_slots {c : Cache} {e e' : Env} (h : c.Allows e)
    (slots : ∀ b, (∃ vars, e.slot (.typeVariables b) = .resolved vars) →
      ∃ vars, e'.slot (.typeVariables b) = .resolved vars) : c.Allows e' := by
  cases c with
  | fields t | methods t => exact ⟨h.1, fun b hb => slots b (h.2 b hb)⟩
  | supertypes t | memberTypes t | precedence team => exact h

theorem Cache.Allows.of_lasts {c : Cache} {e e' : Env} (h : c.Allows e) (lasts : e.Lasts e') :
    c.Allows e' := by
  refine h.of_slots fun b ⟨vars, resolved⟩ => ⟨vars, ?_⟩
  rw [lasts.slots (.typeVariables b) (by simp [resolved]), resolved]

theorem Runs.extends {ℓ : Nat} {e e' : Env} {r : Option Abort} (h : Runs ℓ e r e') :
    e.Extends e' :=
  h.lasts.extends

theorem Env.SameFrame.sameHierarchy {e e' : Env} (h : e.SameFrame e')
    (supertypes : ∀ b, e'.slot (.supertypes b) = e.slot (.supertypes b)) : e.SameHierarchy e' where
  options := h.options
  provider := h.provider
  size := h.size
  binding b := ⟨h.proj_eq (fun _ => rfl) b, h.proj_eq (fun _ => rfl) b, supertypes b⟩
  byName := h.byName
  problems := h.problems

theorem Env.sameHierarchy_setSlot {e : Env} {p : Part} {s : Slot p.Value}
    (h : ∀ b, p ≠ .supertypes b) : e.SameHierarchy (e.setSlot p s) :=
  sameFrame_setSlot.sameHierarchy fun b => slot_setSlot_of_ne (h b).symm

theorem Env.evolves_introduce {e : Env} {x : Binding} (proper : x.isProblem = false)
    (bare : x.bare = x) : e.Evolves (e.introduce x) := by
  have fresh : x.supertypes = .unresolved := by
    rw [← bare]
    rfl
  exact .trans (.add proper fresh) (.bind (.named named_addBinding))

theorem Env.Same.evolves {e e' : Env} (h : e.Same e') : e.Evolves e' :=
  .quiet (h.sameHierarchy fun b => h.slots (.supertypes b))

theorem Step.evolves {ℓ : Nat} {e e' : Env} (h : Step ℓ e e') : e.Evolves e' := by
  cases h with
  | quiet same => exact same.evolves
  | @declare x _ source bare =>
    have proper : x.isProblem = false := by
      cases h : x.origin <;> simp_all [Binding.isSource, Binding.unit?, Binding.isProblem]
    exact (Env.evolves_introduce proper bare.eq).trans (.quiet (Env.sameHierarchy_of_eq rfl))
  | @load x d name given origin _ bare _ =>
    exact Env.evolves_introduce (by simp [Binding.isProblem, origin]) bare.eq
  | @otherName b d name given unbound bound =>
    refine .bind (.otherName d given ?_ (Env.mem_of_lookup bound))
    rintro rfl
    rw [unbound] at bound
    cases bound
  | standIn => exact .problem rfl rfl
  | corrupt _ _ stands => exact .bind (.problem stands)
  | missing => exact .quiet (Env.sameHierarchy_of_eq rfl)
  | roleFile => exact .quiet (Env.sameHierarchy_update fun _ => ⟨rfl, rfl, rfl⟩)
  | methods | mapping => exact .quiet (Env.sameHierarchy_of_eq rfl)
  | @store c v => exact .quiet (Env.sameHierarchy_of_eq (by cases c <;> rfl))

theorem Runs.evolves {ℓ : Nat} {e e' : Env} {r : Option Abort} (h : Runs ℓ e r e') :
    e.Evolves e' := by
  induction h with
  | done => exact .refl _
  | stop _ => exact .refl _
  | reentrant => exact .refl _
  | step h => exact h.evolves
  | seq _ _ ih ih' => exact ih.trans ih'
  | cleanup _ same ih => exact ih.trans same.evolves
  | @resolve _ e e' p v _ has fresh _ allows ih =>
    cases p with
    | supertypes b => exact .supertypes has fresh ih (Env.admits_of_keeps allows)
    | _ =>
      refine .trans (.quiet (Env.sameHierarchy_setSlot ?_))
        (ih.trans (.quiet (Env.sameHierarchy_setSlot ?_)))
      all_goals exact fun _ => nofun
  | @abort _ e e' p _ _ has fresh _ ih =>
    cases p with
    | supertypes b => exact .abort has fresh ih
    | _ =>
      refine .trans (.quiet (Env.sameHierarchy_setSlot ?_)) ih
      exact fun _ => nofun

theorem Step.cache_eq {ℓ : Nat} {e e' : Env} (h : Step ℓ e e') {c : Cache} (low : ℓ < c.level) :
    e'.cache c = e.cache c := by
  cases h with
  | quiet same => exact same.caches c
  | store level =>
    refine Env.cache_setCache_of_ne ?_
    rintro rfl
    exact absurd low (Nat.not_lt_of_le level)
  | _ => rfl

theorem Runs.cache_eq {ℓ : Nat} {e e' : Env} {r : Option Abort} (h : Runs ℓ e r e') {c : Cache}
    (low : ℓ < c.level) : e'.cache c = e.cache c := by
  refine h.keeps (I := fun e' => e'.cache c = e.cache c) (fun step same => ?_) ?_ ?_ rfl
  · rw [step.cache_eq low, same]
  · intro e' p _ _ same
    rw [Env.sameFrame_setSlot.caches, same]
  · intro e' p v _ _ _ same
    rw [Env.sameFrame_setSlot.caches, same]

theorem Step.methods_eq {ℓ : Nat} {e e' : Env} (h : Step ℓ e e') (low : ℓ < 5) :
    e'.methods = e.methods := by
  cases h with
  | quiet same => exact same.methods
  | methods level => exact absurd low (Nat.not_lt_of_le level)
  | @store c v => cases c <;> rfl
  | _ => rfl

theorem Runs.methods_eq {ℓ : Nat} {e e' : Env} {r : Option Abort} (h : Runs ℓ e r e') (low : ℓ < 5) :
    e'.methods = e.methods := by
  refine h.keeps (I := fun e' => e'.methods = e.methods) (fun step same => ?_) ?_ ?_ rfl
  · rw [step.methods_eq low, same]
  · intro e' p _ _ same
    rw [Env.sameFrame_setSlot.methods, same]
  · intro e' p v _ _ _ same
    rw [Env.sameFrame_setSlot.methods, same]

end TeamRoles
