import TeamRoles.Proofs.Session.Pass

/-!
A further pass. What a pass has found out is remembered, and not reported again. Only collisions with
packages, base calls and overrides are looked at anew every time.
-/

namespace TeamRoles

variable {α β : Type} {e e' : Env} {b : BindingId} {u : UnitId}

def Pairing.sameUnits (start : Env) : Pairing where
  Pairs e e' := e' = e ∧ start.SameUnits e
  Queues _ _ := True
  Builds := False
  Opens := True
  alike := fun ⟨same, _⟩ => .inl same
  begun _ _ _ := .inr fun _ _ => trivial
  designator _ _ _ _ := trivial
  apart := fun _ units _ ⟨same, kept⟩ =>
    ⟨by rw [same], kept.trans (units.elim (fun units => units _) False.elim)⟩
  report := fun ⟨same, kept⟩ => ⟨by rw [same], kept.trans (.of_eq rfl rfl)⟩
  update := fun _ ⟨same, kept⟩ => ⟨by rw [same], kept.trans (.of_eq rfl rfl)⟩
  members := fun ⟨same, kept⟩ _ => ⟨by rw [same], kept.trans (.of_eq rfl rfl)⟩
  add := fun _ ⟨same, kept⟩ => ⟨by rw [same], kept.trans (.of_eq rfl rfl)⟩
  attach := fun _ ⟨same, kept⟩ => ⟨by rw [same], kept.trans (.of_eq rfl rfl)⟩
  roleFile := False.elim
  queue := fun _ ⟨same, kept⟩ => ⟨by rw [same], kept.trans (.of_eq rfl rfl)⟩
  drain := fun ⟨same, kept⟩ => ⟨by rw [same], kept.trans (.of_eq rfl rfl)⟩

namespace Resolve

theorem Keeps.sameUnits {x : Resolve α} {r : Except Abort α} (h : Keeps (.sameUnits e) x)
    (ran : x.run e = (r, e')) : e.SameUnits e' := by
  obtain ⟨-, -, kept⟩ := h.run (e := e) ⟨rfl, .of_eq rfl rfl⟩
  rwa [ran] at kept

theorem verified_of_run (inside : u.index < e.units.size)
    (ran : (verifyBaseImports u).run e = (.ok (), e')) :
    (e'.unit u).baseImportsVerified = true := by
  obtain ⟨verify, eq, keeps⟩ := verifyBaseImports_eq u
  rw [eq] at ran
  obtain ⟨_, _, ⟨⟩, ran⟩ := bind_run_ok ran
  split at ran
  · next verified =>
    cases ran
    exact verified
  · obtain ⟨_, _, ⟨⟩, ran⟩ := bind_run_ok ran
    refine (Keeps.sameUnits (keeps _) ran).verified ?_
    simp [Env.unit, Array.getElem_modify, inside]

theorem verifyBaseImports_idle (verified : (e.unit u).baseImportsVerified = true) :
    (verifyBaseImports u).run e = (.ok (), e) := by
  refine get_bind_apply.trans ?_
  rw [if_pos verified]
  rfl

theorem discard_idle {x : Resolve α} (idle : ∃ a, x.run e = (.ok a, e)) :
    (discard x).run e = (.ok (), e) := by
  obtain ⟨a, idle⟩ := idle
  exact bind_apply_ok idle

theorem supertypes_idle (inside : b.index < e.bindings.size)
    (begun : e.slot (.supertypes b) ≠ .unresolved) :
    ∃ s, (ask (.supertypes b)).run e = (.ok s, e) := by
  cases slot : e.slot (.supertypes b) with
  | unresolved => exact absurd slot begun
  | resolved s => exact ⟨s, Part.query_resolved slot⟩
  | inProgress =>
    refine ⟨{}, (run_ask _ e).trans ((known_bind_apply inside).trans ?_)⟩
    rw [show (e.binding b).supertypes = _ from slot]
    rfl

theorem baseClass_idle (inside : b.index < e.bindings.size)
    (begun : e.slot (.baseClass b) ≠ .unresolved) :
    ∃ base, (ask (.baseClass b)).run e = (.ok base, e) := by
  cases slot : e.slot (.baseClass b) with
  | unresolved => exact absurd slot begun
  | resolved base => exact ⟨base, Part.query_resolved slot⟩
  | inProgress =>
    refine ⟨none, (run_ask _ e).trans ((known_bind_apply inside).trans ?_)⟩
    simp only [show (e.binding b).baseClass = _ from slot]
    rfl

theorem resolveAllComponents_idle (inside : b.index < e.bindings.size) (h : e.Explored b) :
    (resolveAllComponents b).run e = (.ok (), e) := by
  have resolved {p : Part} (known : ∃ v, e.slot p = .resolved v) :
      ∃ v, p.query.perform.run e = (.ok v, e) :=
    known.imp fun _ => Part.query_resolved
  refine (bind_apply_ok (discard_idle (supertypes_idle inside h.supertypes))).trans ?_
  refine (bind_apply_ok (discard_idle (resolved h.memberTypes))).trans ?_
  refine (bind_apply_ok (discard_idle (resolved h.typeVariables))).trans ?_
  refine (bind_apply_ok (discard_idle (resolved h.fields))).trans ?_
  refine (bind_apply_ok (discard_idle (resolved h.methods))).trans ?_
  exact discard_idle (baseClass_idle inside h.baseClass)

theorem resolveFrom_idle {fuel next : Nat} (bound : e.bindings.size ≤ next + fuel)
    (explored : ∀ b : BindingId, b.index < e.bindings.size → e.Explored b) :
    (resolveFrom fuel next).run e = (.ok (), e) := by
  induction fuel generalizing next with
  | zero =>
    refine get_bind_apply.trans ?_
    rw [if_pos (Nat.add_zero next ▸ bound)]
    rfl
  | succ fuel ih =>
    refine get_bind_apply.trans ?_
    split
    · rfl
    · next more =>
      have inside : next < e.bindings.size := Nat.lt_of_not_le more
      refine (bind_apply_ok (resolveAllComponents_idle inside (explored ⟨next⟩ inside))).trans ?_
      exact ih (by omega)

theorem typesWithin_congr {fuel : Nat} {types : List BindingId}
    (members : ∀ b, (e'.binding b).memberTypes.get? = (e.binding b).memberTypes.get?)
    (units : ∀ b, (e'.binding b).unit? = (e.binding b).unit?) :
    typesWithin e' u fuel types = typesWithin e u fuel types := by
  induction fuel generalizing types with
  | zero => rfl
  | succ fuel ih =>
    cases types with
    | nil => rfl
    | cons b types => simp only [typesWithin, members, units, ih]

theorem declaredTypes_congr (size : e'.bindings.size = e.bindings.size)
    (types : (e'.unit u).types = (e.unit u).types)
    (members : ∀ b, (e'.binding b).memberTypes = (e.binding b).memberTypes)
    (origins : ∀ b, (e'.binding b).origin = (e.binding b).origin) :
    declaredTypes e' u = declaredTypes e u := by
  rw [declaredTypes, declaredTypes, size, types, typesWithin_congr]
  · exact fun b => by rw [members]
  · exact fun b => by rw [Binding.unit?, origins, Binding.unit?]

theorem declaredTypes_of_lasts (lasts : e.Lasts e') (units : e.SameUnits e')
    (size : e'.bindings.size = e.bindings.size)
    (explored : ∀ b : BindingId, b.index < e.bindings.size → e.Explored b) :
    declaredTypes e' u = declaredTypes e u := by
  have same (b : BindingId) : (e'.binding b).memberTypes = (e.binding b).memberTypes ∧
      (e'.binding b).origin = (e.binding b).origin := by
    by_cases inside : b.index < e.bindings.size
    · obtain ⟨list, known⟩ := (explored b inside).memberTypes
      exact ⟨lasts.slots (.memberTypes b) (by simp [known]), lasts.origin_eq inside⟩
    · have outside := Nat.le_of_not_lt inside
      rw [Env.binding_of_size_le outside, Env.binding_of_size_le (size ▸ outside)]
      exact ⟨rfl, rfl⟩
  exact declaredTypes_congr size (units.types u) (fun b => (same b).1) fun b => (same b).2

theorem bind_run_congr {x y : Resolve α} {f g : α → Resolve β} (first : x.run e = y.run e)
    (rest : ∀ a d, x.run e = (.ok a, d) → (f a).run d = (g a).run d) :
    (x >>= f).run e = (y >>= g).run e := by
  rcases outcome : x.run e with ⟨cause | a, d⟩
  · exact (bind_apply_error outcome).trans (bind_apply_error (first.symm.trans outcome)).symm
  · have same : (f a).run d = (g a).run d := rest a d outcome
    exact (bind_apply_ok outcome).trans (same.trans (bind_apply_ok (first.symm.trans outcome)).symm)

theorem forM_run_congr {l : List α} {f g : α → Resolve PUnit} {I : Env → Prop}
    (same : ∀ a ∈ l, ∀ d, I d → (f a).run d = (g a).run d)
    (keeps : ∀ a d d', I d → (f a).run d = (.ok ⟨⟩, d') → I d') (start : I e) :
    (l.forM f).run e = (l.forM g).run e := by
  induction l generalizing e with
  | nil => rfl
  | cons a l ih =>
    obtain ⟨first, rest⟩ := List.forall_mem_cons.1 same
    exact bind_run_congr (first e start) fun _ d ran => ih rest (keeps a e d start ran)

/-- What is done for a role once its mappings are known. -/
def recheckRole (b : BindingId) : Resolve Unit := do
  if ((← get).binding b).isRole then
    (← ask (.methods b)).forM checkBaseCalls

def recheck : Resolve Unit := do
  checkPackageCollisions
  let e ← get
  let declared := e.added.flatMap (declaredTypes e)
  declared.forM recheckRole
  declared.forM checkOverrides

theorem checkRole_run
    (mapped : (e.binding b).isRole = true → ∃ list, e.slot (.mappings b) = .resolved list) :
    (checkRole b).run e = (recheckRole b).run e := by
  refine get_bind_apply.trans (Eq.trans ?_ get_bind_apply.symm)
  split
  · next isRole =>
    obtain ⟨list, known⟩ := mapped isRole
    exact bind_apply_ok (discard_idle ⟨list, Part.query_resolved known⟩)
  · rfl

theorem checkType_run
    (ordered : (e.binding b).isTeam = true → ∃ table, e.cache (.precedence b) = some table) :
    (checkType b).run e = (checkOverrides b).run e := by
  refine get_bind_apply.trans ?_
  split
  · next isTeam =>
    obtain ⟨table, known⟩ := ordered isTeam
    exact bind_apply_ok (discard_idle ⟨table, Cache.query_filled known trivial⟩)
  · rfl

theorem checkPackageCollisions_run :
    ∃ d, checkPackageCollisions.run e = (.ok (), { e with diagnostics := d }) := by
  have loop (l : List BindingId) (f : BindingId → Resolve PUnit)
      (reports : ∀ b d, ∃ d', (f b).run { e with diagnostics := d } =
        (.ok (), { e with diagnostics := d' })) (d : Diagnostics) :
      ∃ d', (l.forM f).run { e with diagnostics := d } = (.ok (), { e with diagnostics := d' }) := by
    induction l generalizing d with
    | nil => exact ⟨d, rfl⟩
    | cons b l ih =>
      obtain ⟨d₁, first⟩ := reports b d
      obtain ⟨d₂, rest⟩ := ih d₁
      exact ⟨d₂, (bind_apply_ok first).trans rest⟩
  refine loop _ _ (fun b d => ?_) e.diagnostics
  dsimp only
  split
  · exact ⟨d, rfl⟩
  · exact ⟨_, rfl⟩

end Resolve

/-- What a pass finds out about a type that a unit declares. -/
structure Env.Checked (e : Env) (b : BindingId) : Prop where
  inside : b.index < e.bindings.size
  mappings : (e.binding b).isRole = true → ∃ list, e.slot (.mappings b) = .resolved list
  precedence : (e.binding b).isTeam = true → ∃ table, e.cache (.precedence b) = some table

theorem Env.Checked.of_lasts (h : e.Checked b) (lasts : e.Lasts e') : e'.Checked b := by
  refine ⟨Nat.lt_of_lt_of_le h.inside lasts.size, fun isRole => ?_, fun isTeam => ?_⟩
  · rw [Binding.isRole, lasts.modifiers_eq h.inside] at isRole
    exact (h.mappings isRole).imp fun _ => lasts.resolved
  · rw [Binding.isTeam, lasts.modifiers_eq h.inside] at isTeam
    exact (h.precedence isTeam).imp (lasts.caches _)

namespace Resolve

variable {declared : List BindingId}

-- The loops only add to what is remembered, so every round finds it as it was at the start.

theorem forM_checkRole_run (checked : ∀ b ∈ declared, e.Checked b) :
    (declared.forM checkRole).run e = (declared.forM recheckRole).run e := by
  refine forM_run_congr (I := e.Lasts) (fun b hb d lasts => ?_) (fun b d d' lasts ran => ?_) (.refl e)
  · exact checkRole_run ((checked b hb).of_lasts lasts).mappings
  · exact lasts.trans (Lawful.lasts (lawful_checkRole (ℓ := 0)) ran)

theorem forM_checkType_run (checked : ∀ b ∈ declared, e.Checked b) :
    (declared.forM checkType).run e = (declared.forM checkOverrides).run e := by
  refine forM_run_congr (I := e.Lasts) (fun b hb d lasts => ?_) (fun b d d' lasts ran => ?_) (.refl e)
  · exact checkType_run ((checked b hb).of_lasts lasts).precedence
  · exact lasts.trans (Lawful.lasts (lawful_checkType (ℓ := 0)) ran)

end Resolve

structure Env.Passed (e : Env) : Prop where
  imports {u : UnitId} : u ∈ e.added → ∃ imports, e.slot (.imports u) = .resolved imports
  verified {u : UnitId} : u ∈ e.added → (e.unit u).baseImportsVerified = true
  size : e.bindings.size ≤ Resolve.maxDepth
  explored (b : BindingId) : b.index < e.bindings.size → e.Explored b
  boundChecks : e.boundChecks = []
  checked (b : BindingId) : b ∈ e.added.flatMap (Resolve.declaredTypes e) → e.Checked b

namespace Env.Passed

open Resolve

theorem of_diagnostics {d : Diagnostics} (h : e.Passed) :
    ({ e with diagnostics := d } : Env).Passed := by
  have declared : declaredTypes { e with diagnostics := d } = declaredTypes e :=
    funext fun _ => declaredTypes_congr rfl rfl (fun _ => rfl) fun _ => rfl
  exact { h with
    explored := fun b inside => (h.explored b inside).of_lasts { Lasts.refl e with methods := .of_eq rfl }
    checked := fun b hb => by
      rw [declared] at hb
      exact { h.checked b hb with } }

theorem resolve_run (h : e.Passed) : Resolve.resolve.run e = recheck.run e := by
  obtain ⟨d, collisions⟩ := checkPackageCollisions_run (e := e)
  have h := h.of_diagnostics (d := d)
  revert h collisions
  generalize { e with diagnostics := d } = e₁
  intro collisions h
  have imports : (e₁.added.forM fun u => discard (Resolve.imports u)).run e₁ = (.ok (), e₁) := by
    refine forM_idle fun u hu => discard_idle ?_
    obtain ⟨imports, known⟩ := h.imports hu
    exact ⟨imports, Part.query_resolved known⟩
  have types : (resolveFrom maxDepth 0).run e₁ = (.ok (), e₁) :=
    resolveFrom_idle (by simpa using h.size) h.explored
  have bounds : checkDeferredBounds.run e₁ = (.ok (), e₁) := by
    have drained : { e₁ with boundChecks := [] } = e₁ := by rw [← h.boundChecks]
    change (e₁.boundChecks.forM checkBound).run { e₁ with boundChecks := [] } = _
    rw [drained, h.boundChecks]
    rfl
  have bases : (e₁.added.forM verifyBaseImports).run e₁ = (.ok (), e₁) :=
    forM_idle fun u hu => verifyBaseImports_idle (h.verified hu)
  refine (bind_apply_ok collisions).trans (Eq.trans ?_ (bind_apply_ok collisions).symm)
  refine get_bind_apply.trans (Eq.trans ?_ get_bind_apply.symm)
  refine (bind_apply_ok imports).trans ((bind_apply_ok rfl).trans ?_)
  refine (bind_apply_ok types).trans ((bind_apply_ok bounds).trans ?_)
  refine (bind_apply_ok bases).trans (get_bind_apply.trans ?_)
  refine bind_run_congr (forM_checkRole_run h.checked) fun _ d ran => ?_
  have lasts : e₁.Lasts d := Lawful.lasts (.forM fun _ => lawful_checkRole (ℓ := 0)) ran
  exact forM_checkType_run fun b hb => (h.checked b hb).of_lasts lasts

end Env.Passed

structure Env.Onward (e e' : Env) : Prop where
  lasts : e.Lasts e'
  units : e.SameUnits e'

theorem Env.Onward.trans {e'' : Env} (h : e.Onward e') (h' : e'.Onward e'') : e.Onward e'' :=
  ⟨h.lasts.trans h'.lasts, h.units.trans h'.units⟩

namespace Resolve

theorem onward_of_run {x : Resolve α} {r : Except Abort α} (lawful : Lawful 8 x)
    (keeps : ∀ p, Keeps p x) (ran : x.run e = (r, e')) : e.Onward e' :=
  ⟨lawful.lasts ran, (keeps _).sameUnits ran⟩

theorem forM_run_mem {l : List α} {f : α → Resolve PUnit} {a : α} (lawful : ∀ a, Lawful 8 (f a))
    (keeps : ∀ a p, Keeps p (f a)) (ran : (l.forM f).run e = (.ok ⟨⟩, e')) (ha : a ∈ l) :
    ∃ d d', e.Onward d ∧ (f a).run d = (.ok ⟨⟩, d') ∧ d'.Onward e' := by
  induction l generalizing e with
  | nil => cases ha
  | cons c l ih =>
    obtain ⟨_, d, first, rest⟩ := bind_run_ok ran
    cases ha with
    | head =>
      refine ⟨e, d, ⟨.refl e, .of_eq rfl rfl⟩, first, ?_⟩
      exact onward_of_run (.forM lawful) (fun p => .forM fun a _ => keeps a p) rest
    | tail _ ha =>
      obtain ⟨d', d'', before, here, after⟩ := ih rest ha
      exact ⟨d', d'', (onward_of_run (lawful c) (keeps c) first).trans before, here, after⟩

theorem mappings_of_checkRole (ran : (checkRole b).run e = (.ok (), e'))
    (isRole : (e.binding b).isRole = true) : ∃ list, e'.slot (.mappings b) = .resolved list := by
  obtain ⟨_, _, ⟨⟩, ran⟩ := bind_run_ok ran
  rw [if_pos isRole] at ran
  obtain ⟨_, d, mapped, rest⟩ := bind_run_ok ran
  obtain ⟨list, d', mapped, ⟨⟩⟩ := bind_run_ok mapped
  obtain ⟨runs, other | ⟨known⟩⟩ := Triple.run (mappings_triple (ℓ := 0)) trivial mapped
  · cases (runs.lasts.isRole_eq isRole).symm.trans other.1
  · have checked : Lawful 6 (do (← ask (.methods b)).forM checkBaseCalls) :=
      (Lawful.ask _ (by simp)).bind fun _ => .forM fun _ => lawful_checkBaseCalls
    exact ⟨list, (checked.lasts rest).resolved known⟩

theorem lt_size_of_checkOverrides (ran : (checkOverrides b).run e = (.ok (), e')) :
    b.index < e.bindings.size := by
  obtain ⟨_, _, inherited, -⟩ := bind_run_ok ran
  obtain ⟨_, _, asked, -⟩ := bind_run_ok inherited
  refine Nat.lt_of_not_le fun outside => ?_
  cases (known_bind_outside outside).symm.trans ((run_ask _ e).symm.trans asked)

theorem checkOverrides_of_checkType (ran : (checkType b).run e = (.ok (), e')) :
    ∃ d, (checkOverrides b).run d = (.ok (), e') ∧
      ((e.binding b).isTeam = true → ∃ table, d.cache (.precedence b) = some table) := by
  obtain ⟨_, _, ⟨⟩, ran⟩ := bind_run_ok ran
  split at ran
  · obtain ⟨_, d, ordered, ran⟩ := bind_run_ok ran
    obtain ⟨table, _, ordered, ⟨⟩⟩ := bind_run_ok ordered
    obtain ⟨-, filled⟩ := Triple.run (precedence_triple (ℓ := 0)) trivial ordered
    exact ⟨d, ran, fun _ => ⟨table, filled⟩⟩
  · next other => exact ⟨e, ran, fun isTeam => absurd isTeam other⟩

theorem imports_of_loop {units : List UnitId}
    (ran : (units.forM fun u => discard (imports u)).run e = (.ok (), e')) (hu : u ∈ units) :
    ∃ imports, e'.slot (.imports u) = .resolved imports := by
  obtain ⟨_, d, -, here, after⟩ := forM_run_mem (fun _ => .discard lawful_imports)
    (fun _ _ => keeps_imports.discard) ran hu
  obtain ⟨imports, _, here, ⟨⟩⟩ := bind_run_ok here
  obtain ⟨-, known⟩ := Triple.run (imports_triple (ℓ := 0)) trivial here
  exact ⟨imports, after.lasts.resolved known⟩

theorem verified_of_loop {units : List UnitId}
    (ran : (units.forM verifyBaseImports).run e = (.ok (), e')) (hu : u ∈ units)
    (inside : u.index < e.units.size) : (e'.unit u).baseImportsVerified = true := by
  obtain ⟨d, _, before, here, after⟩ := forM_run_mem (fun _ => lawful_verifyBaseImports)
    (fun _ _ => keeps_verifyBaseImports) ran hu
  exact after.units.verified (verified_of_run (by rwa [before.units.size]) here)

theorem mappings_of_loop {declared : List BindingId}
    (ran : (declared.forM checkRole).run e = (.ok (), e')) (hb : b ∈ declared)
    (isRole : (e.binding b).isRole = true) : ∃ list, e'.slot (.mappings b) = .resolved list := by
  obtain ⟨d, _, before, here, after⟩ := forM_run_mem (fun _ => lawful_checkRole)
    (fun _ _ => keeps_checkRole) ran hb
  have known := mappings_of_checkRole here (before.lasts.isRole_eq isRole)
  exact known.imp fun _ => after.lasts.resolved

theorem precedence_of_loop {declared : List BindingId}
    (ran : (declared.forM checkType).run e = (.ok (), e')) (hb : b ∈ declared) :
    b.index < e'.bindings.size ∧
      ((e.binding b).isTeam = true → ∃ table, e'.cache (.precedence b) = some table) := by
  obtain ⟨d, _, before, here, after⟩ := forM_run_mem (fun _ => lawful_checkType)
    (fun _ _ => keeps_checkType) ran hb
  obtain ⟨d', overrides, ordered⟩ := checkOverrides_of_checkType here
  have later := (Lawful.lasts (lawful_checkOverrides (ℓ := 0)) overrides).trans after.lasts
  refine ⟨Nat.lt_of_lt_of_le (lt_size_of_checkOverrides overrides) later.size, fun isTeam => ?_⟩
  obtain ⟨table, known⟩ := ordered (before.lasts.isTeam_eq isTeam)
  exact ⟨table, later.caches _ _ known⟩

theorem checked_of_loops {declared : List BindingId} {mapped : Env}
    (roles : (declared.forM checkRole).run e = (.ok (), mapped))
    (members : (declared.forM checkType).run mapped = (.ok (), e'))
    (size : e'.bindings.size = e.bindings.size) (hb : b ∈ declared) : e'.Checked b := by
  have toMapped : e.Lasts mapped := Lawful.lasts (.forM fun _ => lawful_checkRole (ℓ := 0)) roles
  have toEnd : mapped.Lasts e' := Lawful.lasts (.forM fun _ => lawful_checkType (ℓ := 0)) members
  obtain ⟨inside, ordered⟩ := precedence_of_loop members hb
  have insideStart : b.index < e.bindings.size := size ▸ inside
  have insideMapped : b.index < mapped.bindings.size := Nat.lt_of_lt_of_le insideStart toMapped.size
  refine ⟨inside, fun isRole => ?_, fun isTeam => ordered ?_⟩
  · rw [Binding.isRole, (toMapped.trans toEnd).modifiers_eq insideStart] at isRole
    exact (mappings_of_loop roles hb isRole).imp fun _ => toEnd.resolved
  · rwa [Binding.isTeam, toEnd.modifiers_eq insideMapped] at isTeam

end Resolve

namespace Env

open Resolve in
theorem passed_of_resolve (done : Operation.resolve.perform.run e = (.ok (), e'))
    (size : e'.bindings.size = e.bindings.size) (boundChecks : e'.boundChecks = []) : e'.Passed := by
  obtain ⟨checked, imported, resolved, bounded, verified, mapped, collisions, imports, types, bounds,
    bases, roles, members⟩ := pass_of_resolve done
  have onCollisions : e.Onward checked :=
    onward_of_run lawful_checkPackageCollisions (fun _ => keeps_checkPackageCollisions) collisions
  have onImports : checked.Onward imported :=
    onward_of_run (.forM fun _ => .discard lawful_imports)
      (fun _ => .forM fun _ _ => keeps_imports.discard) imports
  have onTypes : imported.Onward resolved :=
    onward_of_run lawful_resolveFrom (fun _ => keeps_resolveFrom) types
  have onBounds : resolved.Onward bounded :=
    onward_of_run lawful_checkDeferredBounds (fun _ => keeps_checkDeferredBounds) bounds
  have onBases : bounded.Onward verified :=
    onward_of_run (.forM fun _ => lawful_verifyBaseImports)
      (fun _ => .forM fun _ _ => keeps_verifyBaseImports) bases
  have onRoles : verified.Onward mapped :=
    onward_of_run (.forM fun _ => lawful_checkRole) (fun _ => .forM fun _ _ => keeps_checkRole) roles
  have onMembers : mapped.Onward e' :=
    onward_of_run (.forM fun _ => lawful_checkType) (fun _ => .forM fun _ _ => keeps_checkType) members
  have toResolved : e.Onward resolved := onCollisions.trans (onImports.trans onTypes)
  have toVerified : resolved.Onward verified := onBounds.trans onBases
  have toEnd : verified.Onward e' := onRoles.trans onMembers
  obtain ⟨-, bound, explored⟩ := Triple.run (resolveFrom_triple (ℓ := 0)) (by simp) types
  -- No type has come, so the sizes agree throughout.
  have sizeResolved : e'.bindings.size = resolved.bindings.size :=
    Nat.le_antisymm (size ▸ toResolved.lasts.size) (toVerified.trans toEnd).lasts.size
  have sizeVerified : e'.bindings.size = verified.bindings.size :=
    Nat.le_antisymm (sizeResolved ▸ toVerified.lasts.size) toEnd.lasts.size
  have exploredVerified (b : BindingId) (inside : b.index < verified.bindings.size) :
      verified.Explored b :=
    (explored b (by omega)).of_lasts toVerified.lasts
  have toChecked : checked.Onward e' := onImports.trans (onTypes.trans (toVerified.trans toEnd))
  have declared : declaredTypes e' = declaredTypes verified :=
    funext fun _ => declaredTypes_of_lasts toEnd.lasts toEnd.units sizeVerified exploredVerified
  exact {
    imports := fun listed => by
      have known := imports_of_loop imports (toChecked.units.added ▸ listed)
      exact known.imp fun _ => (onTypes.trans (toVerified.trans toEnd)).lasts.resolved
    verified := fun {u} listed => by
      rw [toChecked.units.added] at listed
      obtain ⟨_, known⟩ := imports_of_loop imports listed
      have inside : imported.Has (.imports u) := has_of_resolved known nofun
      refine toEnd.units.verified (verified_of_loop bases listed ?_)
      rwa [(onTypes.trans onBounds).units.size]
    size := by simpa [sizeResolved] using bound
    explored := fun b inside =>
      (exploredVerified b (sizeVerified ▸ inside)).of_lasts toEnd.lasts
    boundChecks := boundChecks
    checked := fun b hb => by
      rw [toChecked.units.added, declared] at hb
      exact checked_of_loops roles members sizeVerified hb }

/-- A pass that brings no new type and leaves no check is followed by passes that do nothing but look
for collisions with packages, base calls and overrides again. -/
theorem resolve_again (done : Operation.resolve.perform.run e = (.ok (), e'))
    (size : e'.bindings.size = e.bindings.size) (checked : e'.boundChecks = []) :
    Operation.resolve.perform.run e' = Resolve.recheck.run e' :=
  (passed_of_resolve done size checked).resolve_run

def lessVisible : UnitDecl where
  fileName := "U"
  package := "p"
  types := [
    { name := "A", methods := [{ name := "m", modifiers := [.public] }] },
    { name := "B", superclass := some (.ofName "A"), methods := [{ name := "m" }] }]

def resolvedLessVisible : Env := Resolve.afterSingle [⟨0⟩, ⟨1⟩] (ofUnit lessVisible)

def resolvedLessVisibleAgain : Env := Resolve.afterSingle [⟨0⟩, ⟨1⟩] resolvedLessVisible

theorem passes_lessVisible :
    Added lessVisible ∧
      Resolve.PassesSingle [⟨0⟩, ⟨1⟩] (ofUnit lessVisible) ∧
      Resolve.PassesSingle [⟨0⟩, ⟨1⟩] resolvedLessVisible ∧
      (resolvedLessVisibleAgain.bindings.size = resolvedLessVisible.bindings.size ∧
        resolvedLessVisibleAgain.boundChecks.isEmpty = true) ∧
      resolvedLessVisible.diagnostics.problems.toList.map (fun p => (p.id, p.arguments)) =
        [(.methodReducesVisibility, ["p.B.m", "p.A.m"])] ∧
      resolvedLessVisibleAgain.diagnostics.problems.toList.map (fun p => (p.id, p.arguments)) =
        [(.methodReducesVisibility, ["p.B.m", "p.A.m"]),
          (.methodReducesVisibility, ["p.B.m", "p.A.m"])] := by
  decide +kernel

theorem resolve_again_lessVisible :
    ∃ e e', Operation.resolve.perform.run e = (.ok (), e') ∧ e'.bindings.size = e.bindings.size ∧
      e'.boundChecks = [] ∧ Operation.resolve.perform.run e' = Resolve.recheck.run e' := by
  obtain ⟨-, -, passes, ⟨size, none⟩, -⟩ := passes_lessVisible
  have checked := List.isEmpty_iff.1 none
  exact ⟨_, _, passes.resolve_run, size, checked, resolve_again passes.resolve_run size checked⟩

/-- The second pass reports what the first one did. -/
theorem exists_repeated :
    ∃ e ids e₁ e₂ e₃, Env.new (Library.core {}).provider {} = .ok e ∧
      (Operation.addUnits [lessVisible]).perform.run e = (.ok ids, e₁) ∧
      Operation.resolve.perform.run e₁ = (.ok (), e₂) ∧
      Operation.resolve.perform.run e₂ = (.ok (), e₃) ∧
      e₂.diagnostics.problems.toList.map (fun p => (p.id, p.arguments)) =
        [(.methodReducesVisibility, ["p.B.m", "p.A.m"])] ∧
      e₃.diagnostics.problems.toList.map (fun p => (p.id, p.arguments)) =
        [(.methodReducesVisibility, ["p.B.m", "p.A.m"]),
          (.methodReducesVisibility, ["p.B.m", "p.A.m"])] := by
  obtain ⟨added, first, second, -, reported⟩ := passes_lessVisible
  obtain ⟨e, ids, made, added⟩ := added.exists_run
  exact ⟨e, ids, _, resolvedLessVisible, resolvedLessVisibleAgain, made, added, first.resolve_run,
    second.resolve_run, reported⟩

end Env

end TeamRoles
