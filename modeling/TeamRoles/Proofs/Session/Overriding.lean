import TeamRoles.Proofs.Generics.Inherited
import TeamRoles.Proofs.Session.Memo
import TeamRoles.Proofs.Session.MethodSearch
import TeamRoles.Proofs.Session.RoleMethods

/-!
Overriding as the checks see it and as searches see it. The check of a type compares its methods with those of
the instantiations that it extends, and a search with those of the generic types. A search therefore hides
what is overridden, unless its erased parameters are others in the generic type.
-/

namespace TeamRoles

open Relation (TransGen)

namespace Env

variable {provider : Provider} {options : Options} {e d f : Env} {b c : BindingId} {m s g : MethodId}
  {inherited own found : List MethodId} {name : String}

theorem Scoped.advances {α : Type} (closed : e.Scoped) (op : Operation α) : e.Advances (op.perform.run e).2 :=
  ⟨closed, (op.lawful_perform.run e).lasts, op.calm_perform.run closed⟩

theorem Leads.advances (h : e.Leads d) (closed : e.Scoped) : e.Advances d := by
  induction h with
  | refl => exact .refl closed
  | step op _ ih => exact ih.trans (ih.develops.closed.advances op)

theorem Reachable.of_run {α : Type} {op : Operation α} {r : Except Abort α} (reachable : Reachable provider options e)
    (run : op.perform.run e = (r, d)) : Reachable provider options d := by
  have next := reachable.step op
  rwa [run] at next

theorem Reachable.leads (reachable : Reachable provider options e) (h : e.Leads d) :
    Reachable provider options d := by
  induction h with
  | refl => exact reachable
  | step op _ ih => exact ih.step op

/-! What a check compares a method with -/

/-- The inherited method that a method overrides, by the check of its type. -/
def overridden? (e : Env) (inherited : List MethodId) (m : MethodId) : Option MethodId :=
  if (e.method m).isSource && Resolve.canOverride (e.method m) then
    inherited.find? fun other => (e.method other).name == (e.method m).name &&
      Resolve.canOverride (e.method other) && e.sameParameters m other
  else none

structure Overrides (e : Env) (inherited : List MethodId) (m s : MethodId) : Prop where
  inherited : s ∈ inherited
  source : (e.method m).isSource = true
  name : (e.method s).name = (e.method m).name
  params : e.erasedParams m = e.erasedParams s

theorem overrides_of_overridden? (h : e.overridden? inherited m = some s) : e.Overrides inherited m s := by
  unfold overridden? at h
  split at h
  · next may =>
    have accepted := List.find?_some h
    simp only [Bool.and_eq_true, beq_iff_eq, sameParameters_eq_true_iff] at may accepted
    exact ⟨List.mem_of_find?_eq_some h, may.1, accepted.1.1, accepted.2⟩
  · cases h

/-- When the overrides of `b` are checked from `e` on, the check comes to its method `m` in `d`, and finds that it
overrides `s`. -/
inductive Selects (e : Env) (b : BindingId) (m s : MethodId) (d : Env) : Prop
  | intro {inherited before after : List MethodId} {e₁ e₂ : Env} :
    (Resolve.inheritedMethods b).run e = (.ok inherited, e₁) →
    (Resolve.ask (.methods b)).run e₁ = (.ok (before ++ m :: after), e₂) →
    (before.forM (Resolve.checkOverride b inherited)).run e₂ = (.ok (), d) →
    d.overridden? inherited m = some s → Selects e b m s d

end Env

namespace Resolve

variable {b : BindingId} {m : MethodId} {inherited methods : List MethodId}

theorem inheritedMethods_secures : Secures Env.Stored (inheritedMethods b)
    fun list e => ∀ s ∈ list, ∃ g, e.Inherits b g s :=
  .of_triple (inheritedMethods_triple (ℓ := 0)) calm_inheritedMethods

theorem methods_secures : Secures (fun _ => True) (ask (.methods b))
    fun list e => (e.binding b).methods = .resolved list :=
  .of_triple (.ask (ℓ := 5) (.methods b) (by simp)) (.ask _)

theorem checks_secure : Secures (fun _ => True) (methods.forM (checkOverride b inherited)) fun _ _ => True :=
  .of_triple (Lawful.forM (ℓ := 2) fun _ => lawful_checkOverride).triple (.forM fun _ => calm_checkOverride)

end Resolve

namespace Env

variable {provider : Provider} {options : Options} {e d f f' : Env} {b c : BindingId} {m s g : MethodId}
  {found : List MethodId} {name : String}

/-- What is known when a check has found that `m` overrides `s`. -/
structure Selected (e : Env) (b : BindingId) (m s : MethodId) (d : Env) : Prop where
  advances : e.Advances d
  finishes : d.Advances ((Operation.checkOverrides b).perform.run e).2
  own : d.Carries b m
  source : (d.method m).isSource = true
  name : (d.method s).name = (d.method m).name
  params : d.erasedParams m = d.erasedParams s
  inherits : ∃ g, d.Inherits b g s

theorem Selects.selected (h : e.Selects b m s d) (closed : e.Scoped) (stored : e.Stored) : e.Selected b m s d := by
  obtain @⟨inherited, before, after, e₁, e₂, gathered, listed, checked, overridden⟩ := h
  obtain ⟨mem, source, name, params⟩ := overrides_of_overridden? overridden
  obtain ⟨le₁, inherits⟩ := Resolve.inheritedMethods_secures.at_depth closed stored gathered
  obtain ⟨le₂, known⟩ := Resolve.methods_secures.at_depth le₁.develops.closed trivial listed
  obtain ⟨le, -⟩ := Resolve.checks_secure.at_depth le₂.develops.closed trivial checked
  obtain ⟨g, inherits⟩ := inherits s mem
  refine ⟨le₁.trans (le₂.trans le), ?_, ⟨_, le.resolved known, by simp⟩, source, name, params, g,
    inherits.of_lasts (le₂.trans le).lasts⟩
  -- What is left of the check is what it does with the other methods.
  have rest : (Operation.checkOverrides b).perform.run e =
      ((m :: after).forM (Resolve.checkOverride b inherited)).run d := by
    have some : ¬inherited.isEmpty = true := fun empty => List.ne_nil_of_mem mem (List.isEmpty_iff.1 empty)
    refine (Resolve.bind_apply_ok gathered).trans ?_
    rw [if_neg some]
    refine (Resolve.bind_apply_ok listed).trans ?_
    rw [List.forM_eq_forM, List.forM_append]
    exact Resolve.bind_apply_ok checked
  rw [rest]
  exact (Resolve.checks_secure _ (Resolve.sound_oracle _) d le.develops.closed trivial).1

/-- The method that has become this one in an instantiation. Any other method is what it is. -/
def generic (e : Env) (s : MethodId) : MethodId :=
  match (e.method s).origin with
  | .parameterized g => g
  | _ => s

/-- What a search that starts from `b` makes of an override: of a method `m` of `b` and a method `s` that it
overrides, which is a version of `g`. -/
structure Hides (e : Env) (b : BindingId) (found : List MethodId) (m s g : MethodId) : Prop where
  overriding : m ∈ found
  /-- What is overridden is not found, unless the type lies above itself. -/
  overridden : s ∈ found → TransGen e.Above b b
  /-- Nor is the generic method, unless its erased parameters are others. -/
  generic : g ∈ found → TransGen e.Above b b ∨ e.erasedParams g ≠ e.erasedParams m
  /-- If they are others, then the search finds a second method. -/
  second : (∃ n ∈ found, n ≠ m ∧ e.erasedParams n = e.erasedParams g) ↔ e.erasedParams g ≠ e.erasedParams m

theorem Inherits.eq_of_carries {t : BindingId} (h : e.Inherits b g s) (linked : e.Linked) (listed : e.Carries t s) :
    s = g := by
  obtain ⟨c, -, -, same | specializes⟩ := h
  · exact same
  · obtain ⟨list, resolved, mem⟩ := listed
    have proper := (linked.listed t list resolved s mem).proper
    rw [Method.isInstance, specializes.origin] at proper
    cases proper

theorem Linked.eq_of_carries {t : BindingId} (linked : e.Linked) (here : e.Carries b m) (there : e.Carries t m) : t = b := by
  obtain ⟨list, resolved, mem⟩ := here
  obtain ⟨list', resolved', mem'⟩ := there
  exact (linked.listed t list' resolved' m mem').declaring.symm.trans (linked.listed b list resolved m mem).declaring

theorem Inherits.generic_eq (h : e.Inherits b g s) (linked : e.Linked) : e.generic s = g := by
  obtain ⟨c, -, ⟨list, resolved, mem⟩, rfl | specializes⟩ := h
  · have proper := (linked.listed c list resolved s mem).proper
    rw [Method.isInstance] at proper
    rw [generic]
    cases origin : (e.method s).origin <;> simp_all
  · rw [generic, specializes.origin]

theorem Inherits.name_eq (h : e.Inherits b g s) (linked : e.Linked) : (e.method s).name = (e.method g).name := by
  obtain ⟨c, -, ⟨list, resolved, mem⟩, rfl | specializes⟩ := h
  · rfl
  · exact specializes.name (linked.listed c list resolved g mem)

theorem Inherits.hasMethod (h : e.Inherits b g s) (closed : e.Scoped) : e.HasMethod g := by
  obtain ⟨c, -, listed, -⟩ := h
  exact closed.hasMethod listed

theorem Inherits.inside (h : e.Inherits b g s) (closed : e.Scoped) : s.index < e.methods.size := by
  have there := h.hasMethod closed
  obtain ⟨c, -, -, rfl | specializes⟩ := h
  · exact there.inside
  · exact specializes.inside

theorem Sought.mem_of_source {seen : List BindingId} (sought : e.Sought b name seen [] found)
    (distinct : ∀ list, (e.binding b).methods = .resolved list → e.Distinct list) (own : e.Carries b m)
    (source : (e.method m).isSource = true) (named : (e.method m).name = name) : m ∈ found := by
  obtain ⟨list, resolved, mem⟩ := own
  obtain ⟨pre, post, rfl⟩ := List.append_of_mem mem
  obtain ⟨-, first⟩ := sought.start.resolve_left (by simp)
  refine first pre m post resolved named fun n hn same => ?_
  exact (List.pairwise_append.1 (distinct _ resolved)).2.2 n hn m List.mem_cons_self source same

theorem Finds.eq_of_params (finds : e.Finds b name found) (hm : m ∈ found) (hs : s ∈ found)
    (same : e.erasedParams s = e.erasedParams m) : s = m :=
  List.inj_on_of_nodup_map (List.pairwise_map.2 finds.distinct) hs hm same

theorem overridden_hidden (reachable : Reachable provider options e) (selected : e.Selects b m s d)
    (later : ((Operation.checkOverrides b).perform.run e).2.Leads f) (named : (d.method m).name = name)
    (answered : (Operation.findMethods b name).perform.run f = (.ok found, f')) :
    f'.Hides b found m s (f'.generic s) := by
  obtain ⟨advances, finishes, own, source, alike, params, g, inherits⟩ :=
    selected.selected reachable.scoped.1 reachable.stored
  -- The search takes place in a later environment, in which all of this is still so.
  have reached : Reachable provider options f := (reachable.step _).leads later
  obtain ⟨le, seen, sought⟩ := Resolve.findMethods_secures.at_depth reached.scoped.1 trivial answered
  have le : d.Advances f' := finishes.trans ((later.advances finishes.develops.closed).trans le)
  have reached : Reachable provider options f' := reached.of_run answered
  have linked := reached.linked
  have finds := sought.finds
  have known := le.closed.hasMethod own
  have own' := le.carries own
  have here : m ∈ found := by
    refine sought.mem_of_source (reached.scoped.2 b) own' ?_ ?_
    · rwa [le.develops.proj_eq (g := Method.isSource) known.inside fun _ => rfl]
    · rw [le.name_eq known, named]
  have inherits' := inherits.of_lasts le.lasts
  rw [inherits'.generic_eq linked]
  have called : (f'.method g).name = name := by
    rw [← inherits'.name_eq linked, le.develops.proj_eq (g := Method.name) (inherits.inside le.closed) fun _ => rfl,
      alike, named]
  -- A class above the type that lists the method of the type is the type itself.
  have cycle {t : BindingId} (path : TransGen f'.Above b t) (listed : f'.Carries t m) : TransGen f'.Above b b :=
    linked.eq_of_carries own' listed ▸ path
  obtain ⟨c, path, listed, -⟩ := id inherits'
  refine ⟨here, fun hs => ?_, fun hg => ?_, fun ⟨n, hn, other, same⟩ equal => ?_, fun differ => ?_⟩
  · obtain ⟨-, t, -, there⟩ := finds.sound s hs
    obtain rfl := inherits'.eq_of_carries linked there
    have same : f'.erasedParams s = f'.erasedParams m := by
      rw [le.erasedParams_eq (inherits.hasMethod le.closed), le.erasedParams_eq known, params]
    exact cycle path (finds.eq_of_params here hs same ▸ listed)
  · refine or_iff_not_imp_right.2 fun same => cycle path ?_
    exact finds.eq_of_params here hg (not_not.1 same) ▸ listed
  · exact other (finds.eq_of_params here hn (same.trans equal))
  · obtain ⟨n, hn, same, -⟩ := finds.complete c g path.to_reflTransGen listed called
    refine ⟨n, hn, ?_, same⟩
    rintro rfl
    exact differ same.symm

/-- A class that overrides a method of the instantiation that it extends, and makes it less visible. -/
def overridingBox : UnitDecl where
  fileName := "U"
  package := "p"
  types := [
    { name := "Num" },
    { name := "Box", typeParams := [{ name := "T" }]
      methods := [{ name := "m", modifiers := [.public], params := [{ name := "x", type := .ofName "T" }] }] },
    { name := "NumBox", superclass := some (.named [.mk "Box" [.type (.ofName "Num")]])
      methods := [{ name := "m", params := [{ name := "x", type := .ofName "Num" }] }] }]

def resolvedOverridingBox : Env := Resolve.afterSingle [⟨0⟩, ⟨1⟩, ⟨2⟩] (ofUnit overridingBox)

/-- What the last class inherits, and what its own methods are then. -/
def inheritedByNumBox : Except Abort (List MethodId) × Env := (Resolve.inheritedMethods ⟨2⟩).run resolvedOverridingBox

def methodsOfNumBox : Except Abort (List MethodId) × Env := (Resolve.ask (.methods ⟨2⟩)).run inheritedByNumBox.2

def foundInNumBox : Except Abort (List MethodId) × Env :=
  (Operation.findMethods ⟨2⟩ "m").perform.run ((Operation.checkOverrides ⟨2⟩).perform.run resolvedOverridingBox).2

theorem passes_overridingBox : Added overridingBox ∧ Resolve.PassesSingle [⟨0⟩, ⟨1⟩, ⟨2⟩] (ofUnit overridingBox) ∧
    resolvedOverridingBox.diagnostics.problems.toList.map (fun p => (p.id, p.arguments)) =
      [(.methodReducesVisibility, ["p.NumBox.m", "p.Box.m"])] := by
  decide +kernel

theorem reachable_overridingBox : Reachable (Library.core {}).provider {} resolvedOverridingBox := by
  have added : Reachable (Library.core {}).provider {} (ofUnit overridingBox) :=
    .step (.addUnits [overridingBox]) (.new rfl)
  have passed : Operation.resolve.perform.run (ofUnit overridingBox) = (.ok (), resolvedOverridingBox) :=
    passes_overridingBox.2.1.resolve_run
  exact added.of_run passed

theorem selects_overridingBox : resolvedOverridingBox.Selects ⟨2⟩ ⟨1⟩ ⟨6⟩ methodsOfNumBox.2 := by
  have gathered : inheritedByNumBox.1 = .ok [⟨6⟩, ⟨2⟩, ⟨3⟩, ⟨4⟩] := by decide +kernel
  have listed : methodsOfNumBox.1 = .ok ([] ++ [⟨1⟩]) := by decide +kernel
  have overridden : methodsOfNumBox.2.overridden? [⟨6⟩, ⟨2⟩, ⟨3⟩, ⟨4⟩] ⟨1⟩ = some ⟨6⟩ := by decide +kernel
  exact .intro (Resolve.run_of_outcome gathered) (Resolve.run_of_outcome listed) rfl overridden

theorem found_overridingBox : foundInNumBox.1 = .ok [⟨1⟩, ⟨0⟩] ∧ foundInNumBox.2.generic ⟨6⟩ = ⟨0⟩ ∧
    (foundInNumBox.2.method ⟨6⟩).isInstance = true ∧ (methodsOfNumBox.2.method ⟨1⟩).name = "m" := by
  decide +kernel

theorem overridden_hidden_overridingBox : Reachable (Library.core {}).provider {} resolvedOverridingBox ∧
    resolvedOverridingBox.Selects ⟨2⟩ ⟨1⟩ ⟨6⟩ methodsOfNumBox.2 ∧ (methodsOfNumBox.2.method ⟨1⟩).name = "m" ∧
    foundInNumBox = (.ok [⟨1⟩, ⟨0⟩], foundInNumBox.2) ∧
    foundInNumBox.2.Hides ⟨2⟩ [⟨1⟩, ⟨0⟩] ⟨1⟩ ⟨6⟩ (foundInNumBox.2.generic ⟨6⟩) := by
  obtain ⟨outcome, -, -, named⟩ := found_overridingBox
  have answered := Resolve.run_of_outcome outcome
  exact ⟨reachable_overridingBox, selects_overridingBox, named, answered,
    overridden_hidden reachable_overridingBox selects_overridingBox .refl named answered⟩

/-- A session that is resolved, with the report on a method that overrides another one and is less visible. A search
for methods of its name finds the generic method that the other one is made from, too. -/
theorem exists_overridden_found :
    ∃ e e' d s g f', Env.new (Library.core {}).provider {} = .ok e ∧
      Operation.resolve.perform.run ((Operation.addUnits [overridingBox]).perform.run e).2 = (.ok (), e') ∧
      e'.diagnostics.problems.toList.map (fun p => (p.id, p.arguments)) =
        [(.methodReducesVisibility, ["p.NumBox.m", "p.Box.m"])] ∧
      e'.Selects ⟨2⟩ ⟨1⟩ s d ∧ ((f'.method s).isInstance = true ∧ f'.generic s = g) ∧
      (Operation.findMethods ⟨2⟩ (d.method ⟨1⟩).name).perform.run
        ((Operation.checkOverrides ⟨2⟩).perform.run e').2 = (.ok [⟨1⟩, g], f') := by
  obtain ⟨-, passes, reported⟩ := passes_overridingBox
  obtain ⟨outcome, made, isInstance, named⟩ := found_overridingBox
  refine ⟨_, resolvedOverridingBox, methodsOfNumBox.2, ⟨6⟩, ⟨0⟩, foundInNumBox.2, rfl, passes.resolve_run, reported,
    selects_overridingBox, ⟨isInstance, made⟩, ?_⟩
  rw [named]
  exact Resolve.run_of_outcome outcome

end Env

end TeamRoles
