import TeamRoles.Proofs.Session.Pass

/-!
Re-entrance. What runs inside the resolution of a part is mostly of a lower level than the part, so it
does not come back to it; only fields and methods are resolved by runs of their own level.
-/

namespace TeamRoles

variable {ℓ : Nat} {e e' : Env} {r : Option Abort} {p : Part}

namespace Env

theorem slot_congr (bindings : e'.bindings = e.bindings) (units : e'.units = e.units)
    (mappings : e'.roleMappings = e.roleMappings) : e'.slot p = e.slot p := by
  cases p <;> simp only [slot, binding, unit, bindings, units, mappings]

theorem slot_standIn {name : String} {reason : ProblemReason}
    (begun : (e.addProblem (.standIn name reason) name reason).slot p = .inProgress) :
    e.slot p = .inProgress := by
  have added (b : BindingId) : (e.addProblem (.standIn name reason) name reason).binding b =
      if b = e.nextBinding then .standIn name reason else e.binding b := by
    split
    · next new =>
      subst new
      exact binding_addBinding_self
    · next old => exact binding_addBinding_of_ne old
  cases p with
  | mappings role => exact begun
  | imports u => exact begun
  | _ =>
    simp only [slot, added] at begun
    split at begun
    · cases begun
    · exact begun

end Env

theorem Step.inProgress_of (h : Step ℓ e e') (begun : e'.slot p = .inProgress) :
    e.slot p = .inProgress := by
  cases h with
  | quiet same => rwa [same.slots] at begun
  | declare _ _ bare | load _ _ _ bare =>
    rw [← Env.slot_addBinding_of_bare bare.eq]
    exact (Env.slot_congr rfl rfl rfl).trans begun
  | otherName | corrupt | missing | methods | mapping => exact (Env.slot_congr rfl rfl rfl).trans begun
  | standIn => exact Env.slot_standIn begun
  | roleFile => rwa [Env.slot_addRoleFile] at begun
  | @store c v => cases c <;> exact (Env.slot_congr rfl rfl rfl).trans begun

theorem Runs.inProgress_of (h : Runs ℓ e r e') (ends : r = none) (begun : e'.slot p = .inProgress) :
    e.slot p = .inProgress := by
  induction h with
  | done => exact begun
  | stop | reentrant | cleanup | abort => cases ends
  | step h => exact h.inProgress_of begun
  | seq _ _ ih ih' => exact ih rfl (ih' ends begun)
  | @resolve _ e e' q v _ has fresh run _ ih =>
    by_cases same : p = q
    · subst same
      have has' := (run.lasts.of_setSlot fresh).has has
      cases (Env.slot_setSlot_self has').symm.trans begun
    · rw [Env.slot_setSlot_of_ne same] at begun
      have inside := ih rfl begun
      rwa [Env.slot_setSlot_of_ne same] at inside

/-- No part that is resolved by runs of a lower level is in progress, as far as a run may ask for it. -/
def Env.Calm (e : Env) (ℓ : Nat) : Prop :=
  ∀ p : Part, p.inner < p.level → p.level ≤ ℓ → e.slot p ≠ .inProgress

theorem Env.Calm.begin (h : e.Calm ℓ) (level : p.level ≤ ℓ) :
    (e.setSlot p .inProgress).Calm p.inner := by
  intro q lower inside
  by_cases same : q = p
  · subst same
    exact absurd inside (Nat.not_le_of_lt lower)
  · rw [slot_setSlot_of_ne same]
    exact h q lower (Nat.le_trans inside (Nat.le_trans p.inner_le_level level))

theorem Part.fields_or_methods {c : Component} (component : p.component? = some c)
    (own : ¬p.inner < p.level) : c = .fields ∨ c = .methods := by
  cases p <;> simp_all [component?, inner, level]

theorem Runs.reentrant_component {name : String} {c : Component} (h : Runs ℓ e r e') (calm : e.Calm ℓ)
    (aborted : r = some (.reentrant name c)) : c = .fields ∨ c = .methods := by
  induction h with
  | done | step | resolve => cases aborted
  | stop other =>
    cases aborted
    cases other
  | @reentrant _ e p _ _ component level begun =>
    cases aborted
    exact p.fields_or_methods component fun lower => calm p lower level begun
  | seq run _ _ ih =>
    exact ih (fun p lower inside begun => calm p lower inside (run.inProgress_of rfl begun)) aborted
  | cleanup _ _ ih => exact ih calm aborted
  | abort level _ _ _ ih => exact ih (calm.begin level) aborted

namespace Env

/-- The environments of a session in which no operation has been aborted. -/
inductive Settled (provider : Provider) (options : Options) : Env → Prop
  | new {e : Env} : Env.new provider options = .ok e → Settled provider options e
  | step {e e' : Env} {α : Type} (op : Operation α) {a : α} : Settled provider options e →
    op.perform.run e = (.ok a, e') → Settled provider options e'

variable {provider : Provider} {options : Options}

theorem Settled.not_inProgress (h : Settled provider options e) : e.slot p ≠ .inProgress := by
  induction h with
  | new made =>
    obtain ⟨config, rfl⟩ := eq_of_new made
    cases p <;> nofun
  | @step e _ _ op _ _ answered ih =>
    have runs := op.lawful_perform.run e
    rw [answered] at runs
    exact fun begun => ih (runs.runs.inProgress_of rfl begun)

theorem reentrant_fields_or_methods {α : Type} {op : Operation α} {name : String} {c : Component}
    (h : Settled provider options e) (aborted : op.perform.run e = (.error (.reentrant name c), e')) :
    c = .fields ∨ c = .methods := by
  have runs := op.lawful_perform.run e
  rw [aborted] at runs
  exact runs.runs.reentrant_component (fun _ _ _ => h.not_inProgress) rfl

/-- A role whose base is the role that refines it, and that takes the signature of a callout from there. -/
def crossed : UnitDecl where
  fileName := "U"
  package := "p"
  types := [
    { name := "A", modifiers := [.team]
      memberTypes := [{
        name := "R", playedBy := some (.ofName "B.R")
        callouts := [{ roleMethod := { name := "m" }, kind := .method, base := { name := "n" } }] }] },
    { name := "B", modifiers := [.team], superclass := some (.ofName "A")
      memberTypes := [{ name := "R" }] }]

def ofCrossed : Env :=
  ((Operation.addUnits [crossed]).perform.run { options := {}, provider := .empty }).2

theorem addUnits_crossed : ∃ ids,
    (Operation.addUnits [crossed]).perform.run { options := {}, provider := .empty } =
      (.ok ids, ofCrossed) := by
  have added : ((Operation.addUnits [crossed]).perform.run
      { options := {}, provider := .empty }).1.toBool = true := by
    decide +kernel
  rcases outcome : (Operation.addUnits [crossed]).perform.run { options := {}, provider := .empty } with
    ⟨cause | ids, e⟩
  · rw [outcome] at added
    cases added
  · exact ⟨ids, by rw [ofCrossed, outcome]⟩

theorem resolve_crossed : ∃ e,
    Operation.resolve.perform.run ofCrossed = (.error (.reentrant "p.A$R" .methods), e) := by
  have collisions : Resolve.checkPackageCollisions.run ofCrossed = (.ok (), ofCrossed) :=
    Resolve.checkPackageCollisions_silent (by decide +kernel)
  have stopped : Resolve.aborted (Operation.resolve.perform.run ofCrossed).1 =
      some (.reentrant "p.A$R" .methods) := by
    have rest : Operation.resolve.perform.run ofCrossed = _ := Resolve.bind_apply_ok collisions
    rw [rest]
    decide +kernel
  rcases outcome : Operation.resolve.perform.run ofCrossed with ⟨cause | done, e⟩
  · rw [outcome] at stopped
    cases stopped
    exact ⟨e, rfl⟩
  · rw [outcome] at stopped
    cases stopped

theorem reentrant_fields_or_methods_crossed :
    ∃ e e' c, Settled .empty {} e ∧
      Operation.resolve.perform.run e = (.error (.reentrant "p.A$R" c), e') ∧
      (c = .fields ∨ c = .methods) := by
  obtain ⟨ids, added⟩ := addUnits_crossed
  obtain ⟨e', aborted⟩ := resolve_crossed
  have settled : Settled .empty {} ofCrossed := .step (.addUnits [crossed]) (.new rfl) added
  exact ⟨ofCrossed, e', .methods, settled, aborted, reentrant_fields_or_methods settled aborted⟩

/-- Units that are added to a new session and cannot be resolved. -/
theorem exists_reentrant :
    ∃ e e₁ e₂ ids, Env.new .empty {} = .ok e ∧
      (Operation.addUnits [crossed]).perform.run e = (.ok ids, e₁) ∧
      Operation.resolve.perform.run e₁ = (.error (.reentrant "p.A$R" .methods), e₂) := by
  obtain ⟨ids, added⟩ := addUnits_crossed
  obtain ⟨e₂, aborted⟩ := resolve_crossed
  exact ⟨_, ofCrossed, e₂, ids, rfl, added, aborted⟩

end Env

end TeamRoles
