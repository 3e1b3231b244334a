import TeamRoles.Proofs.Session.Pass

/-!
Checks of type arguments that a pass leaves behind. They are drained in the middle of it, when all types
have been asked for their components; what leaves a check after that are the parameter types of the
methods that mappings name.
-/

namespace TeamRoles

variable {e e' : Env} {b : BindingId} {unit : UnitId} {span : Span}
  {A : UnitId → Span → Prop}

namespace Env

/-- A mapping at this place names a method by its parameter types. -/
def Designates (e : Env) (unit : UnitId) (span : Span) : Prop :=
  ∃ role decl spec, (e.binding role).origin = .source decl unit ∧ (spec, span) ∈ decl.designators ∧
    spec.params.isSome = true

theorem Designates.of_origin (h : e.Designates unit span)
    (same : ∀ role decl unit, (e.binding role).origin = .source decl unit → decl.designators ≠ [] →
      (e'.binding role).origin = .source decl unit) : e'.Designates unit span := by
  obtain ⟨role, decl, spec, origin, designates, params⟩ := h
  have kept := same role decl unit origin (List.ne_nil_of_mem designates)
  exact ⟨role, decl, spec, kept, designates, params⟩

theorem Designates.of_lasts (h : e.Designates unit span) (lasts : e.Lasts e') :
    e'.Designates unit span := by
  refine h.of_origin fun role decl unit origin some => ?_
  rw [lasts.origin_eq (lt_size_of_ne_default ?_), origin]
  intro default
  rw [default] at origin
  cases origin
  exact some rfl

/-- All references have been resolved but those of mappings, and checks are left at some places only. -/
structure Quiet (A : UnitId → Span → Prop) (e : Env) : Prop where
  begun {b : BindingId} : b.index < e.bindings.size → (e.binding b).isSource = true →
    (e.binding b).Begun
  designates {unit : UnitId} {span : Span} : e.Designates unit span → A unit span
  boundChecks : ∀ c ∈ e.boundChecks, A c.unit c.span

namespace Quiet

theorem of_eq (h : e.Quiet A) (bindings : e'.bindings = e.bindings)
    (boundChecks : ∀ c ∈ e'.boundChecks, A c.unit c.span) : e'.Quiet A := by
  have same (b : BindingId) : e'.binding b = e.binding b := by rw [binding, bindings, binding]
  refine ⟨fun {b} inside source => ?_, fun designates => ?_, boundChecks⟩
  · rw [same] at source ⊢
    exact h.begun (by rwa [bindings] at inside) source
  · exact h.designates (designates.of_origin fun role _ _ origin _ => by rwa [same] at origin)

theorem update {f : Binding → Binding} (h : e.Quiet A) (origin : ∀ x, (f x).origin = x.origin)
    (begun : ∀ x : Binding, x.Begun → (f x).Begun) : (e.update b f).Quiet A := by
  have same (c : BindingId) : ((e.update b f).binding c).origin = (e.binding c).origin :=
    binding_update_proj origin c
  refine ⟨fun {c} inside source => ?_, fun designates => ?_, h.boundChecks⟩
  · rw [size_update] at inside
    rw [Binding.isSource, Binding.unit?, same] at source
    have before := h.begun inside source
    rw [binding_update]
    split
    · exact begun _ before
    · exact before
  · exact h.designates (designates.of_origin fun role _ _ origin _ => by rwa [same] at origin)

theorem addBinding {x : Binding} (h : e.Quiet A) (foreign : x.isSource = false) :
    (e.addBinding x).Quiet A := by
  have known {c : BindingId} (source : ((e.addBinding x).binding c).isSource = true) :
      c ≠ e.nextBinding := by
    rintro rfl
    rw [binding_addBinding_self, foreign] at source
    cases source
  refine ⟨fun {c} inside source => ?_, fun designates => ?_, h.boundChecks⟩
  · have old := known source
    rw [binding_addBinding_of_ne old] at source ⊢
    refine h.begun (Nat.lt_of_le_of_ne ?_ fun last => old ?_) source
    · exact Nat.le_of_lt_succ (by simpa [Env.addBinding] using inside)
    · exact congrArg BindingId.mk last
  · refine h.designates (designates.of_origin fun role _ _ origin _ => ?_)
    rwa [binding_addBinding_of_ne (known (Binding.isSource_of_origin origin))] at origin

end Quiet

end Env

/-- Nothing is built any more, and no reference is resolved but those of mappings. -/
def Pairing.quiet (A : UnitId → Span → Prop) : Pairing where
  Pairs e e' := e' = e ∧ e.Quiet A
  Queues := A
  Builds := False
  Opens := True
  alike := fun ⟨same, _⟩ => .inl same
  begun := fun ⟨_, quiet⟩ inside source => .inl (quiet.begun inside source)
  designator := fun ⟨_, quiet⟩ origin designates params =>
    quiet.designates ⟨_, _, _, origin, designates, params⟩
  apart := by
    rintro e _ g apart - - ⟨rfl, quiet⟩
    refine ⟨rfl, quiet.of_eq (apart.bindings _) ?_⟩
    rw [apart.boundChecks]
    exact quiet.boundChecks
  report := fun ⟨same, quiet⟩ => ⟨by rw [same], quiet.of_eq rfl quiet.boundChecks⟩
  update := fun steady ⟨same, quiet⟩ =>
    ⟨by rw [same], quiet.update steady.origin fun _ => steady.begun⟩
  members := fun ⟨same, quiet⟩ _ =>
    ⟨by rw [same], quiet.update (fun _ => rfl) fun _ begun => { begun with }⟩
  add := fun foreign ⟨same, quiet⟩ =>
    ⟨by rw [same], quiet.addBinding (Bool.eq_false_iff.2 foreign)⟩
  attach := fun _ ⟨same, quiet⟩ =>
    ⟨by rw [same], quiet.update (fun _ => rfl) fun _ begun => { begun with }⟩
  roleFile := False.elim
  queue := by
    rintro e _ t unit span allowed ⟨rfl, quiet⟩
    refine ⟨rfl, quiet.of_eq rfl fun c left => ?_⟩
    rcases List.mem_append.1 left with old | new
    · exact quiet.boundChecks c old
    · cases List.mem_singleton.1 new
      exact allowed
  drain := fun ⟨same, quiet⟩ => ⟨by rw [same], quiet.of_eq rfl nofun⟩

theorem Resolve.Keeps.quiet {α : Type} {x : Resolve α} {r : Except Abort α}
    (h : Keeps (.quiet A) x) (ran : x.run e = (r, e')) (quiet : e.Quiet A) : e'.Quiet A := by
  obtain ⟨-, -, left⟩ := h.run (e := e) ⟨rfl, quiet⟩
  rwa [ran] at left

namespace Env

open Resolve in
/-- The type arguments that a pass leaves unchecked are written in mappings, as parameter types of the
methods they name. -/
theorem unchecked_designated (done : Operation.resolve.perform.run e = (.ok (), e')) :
    ∀ c ∈ e'.boundChecks, e'.Designates c.unit c.span := by
  obtain ⟨_, _, resolved, bounded, _, _, -, -, types, bounds, bases, roles, members⟩ :=
    pass_of_resolve done
  obtain ⟨-, -, explored⟩ := Triple.run (resolveFrom_triple (ℓ := 0)) (by simp) types
  -- From the drain on, all types have been begun, and only mappings still resolve references.
  let drained : Env := { resolved with boundChecks := [] }
  have start : drained.Quiet drained.Designates :=
    ⟨fun inside _ => (explored _ inside).begun, id, nofun⟩
  have checked : (resolved.boundChecks.forM checkBound).run drained = (.ok (), bounded) := bounds
  have quiet : e'.Quiet drained.Designates := by
    refine Keeps.quiet (.forM fun _ _ => keeps_checkType) members ?_
    refine Keeps.quiet (.forM fun _ _ => keeps_checkRole) roles ?_
    refine Keeps.quiet (.forM fun _ _ => keeps_verifyBaseImports) bases ?_
    exact Keeps.quiet (.forM fun _ _ => keeps_checkBound) checked start
  have lasts : drained.Lasts e' := by
    refine .trans (Lawful.lasts (.forM fun _ => lawful_checkBound (ℓ := 0)) checked) ?_
    refine .trans (Lawful.lasts (.forM fun _ => lawful_verifyBaseImports (ℓ := 0)) bases) ?_
    refine .trans (Lawful.lasts (.forM fun _ => lawful_checkRole (ℓ := 0)) roles) ?_
    exact Lawful.lasts (.forM fun _ => lawful_checkType (ℓ := 0)) members
  exact fun c left => (quiet.boundChecks c left).of_lasts lasts

/-- A callin that names the base method by a parameter type whose argument is out of bounds. -/
def outOfBounds : UnitDecl where
  fileName := "U"
  package := "p"
  types := [
    { name := "Num" }, { name := "Bad" },
    { name := "Box", typeParams := [{ name := "T", bounds := [.ofName "Num"] }] },
    { name := "Base", methods := [{ name := "m", params := [{ name := "x", type := .ofName "Box" }] }] },
    { name := "Tm", modifiers := [.team]
      memberTypes := [{
        name := "R", playedBy := some (.ofName "Base")
        methods := [{ name := "r", params := [{ name := "x", type := .ofName "Box" }] }]
        callins := [{
          roleMethod := { name := "r" }, kind := .before
          baseMethods := [{
            name := "m", params := some [.generic "Box" [.type (.ofName "Bad")]] }] }] }] }]

def resolvedOutOfBounds : Env :=
  Resolve.afterSingle [⟨0⟩, ⟨1⟩, ⟨2⟩, ⟨3⟩, ⟨4⟩, ⟨5⟩] (ofUnit outOfBounds)

theorem passes_outOfBounds :
    Added outOfBounds ∧
      Resolve.PassesSingle [⟨0⟩, ⟨1⟩, ⟨2⟩, ⟨3⟩, ⟨4⟩, ⟨5⟩] (ofUnit outOfBounds) ∧
      resolvedOutOfBounds.diagnostics.problems.toList.map (·.id) = [] ∧
      resolvedOutOfBounds.boundChecks.map (fun c => resolvedOutOfBounds.typeName c.type) =
        ["p.Box<p.Bad>"] ∧
      (Operation.checkDeferredBounds.perform.run resolvedOutOfBounds).2.diagnostics.problems.toList.map
        (fun p => (p.id, p.arguments)) =
          [(.typeArgumentMismatch, ["p.Bad", "T", "p.Box<p.Bad>"])] := by
  decide +kernel

theorem unchecked_designated_outOfBounds :
    ∃ e e', Operation.resolve.perform.run e = (.ok (), e') ∧ e'.boundChecks ≠ [] ∧
      ∀ c ∈ e'.boundChecks, e'.Designates c.unit c.span := by
  obtain ⟨-, passes, -, left, -⟩ := passes_outOfBounds
  refine ⟨_, _, passes.resolve_run, fun none => ?_, unchecked_designated passes.resolve_run⟩
  rw [show resolvedOutOfBounds.boundChecks = [] from none] at left
  cases left

/-- A pass that reports nothing, although a further check finds an argument out of bounds. -/
theorem exists_unchecked :
    ∃ e ids e₁ e₂, Env.new (Library.core {}).provider {} = .ok e ∧
      (Operation.addUnits [outOfBounds]).perform.run e = (.ok ids, e₁) ∧
      Operation.resolve.perform.run e₁ = (.ok (), e₂) ∧
      e₂.diagnostics.problems.toList.map (·.id) = [] ∧
      e₂.boundChecks.map (fun c => e₂.typeName c.type) = ["p.Box<p.Bad>"] ∧
      (Operation.checkDeferredBounds.perform.run e₂).2.diagnostics.problems.toList.map
        (fun p => (p.id, p.arguments)) =
          [(.typeArgumentMismatch, ["p.Bad", "T", "p.Box<p.Bad>"])] := by
  obtain ⟨added, passes, left⟩ := passes_outOfBounds
  obtain ⟨e, ids, made, added⟩ := added.exists_run
  exact ⟨e, ids, _, resolvedOutOfBounds, made, added, passes.resolve_run, left⟩

end Env

end TeamRoles
