import TeamRoles.Proofs.Precedence.Required
import TeamRoles.Proofs.Views.Session

/-!
The views of methods in the course of a session. A method shows its declared signature while its source view
has been entered more often than it has been left, whatever else the session does in between.
-/

namespace TeamRoles

variable {provider : Provider} {options : Options} {e e' : Env} {m n : MethodId} {log : List Switch} {x : Method}

namespace Method

theorem view_of_woven (woven : e.IsWoven x) : x.view =
    if x.enhanced = none ∨ 0 < x.viewDepth then .declared
    else .enhanced e.options.weavingScheme.enhancingArgs.length := by
  cases known : x.enhanced with
  | none => simp [view, known]
  | some s =>
    have added : s.params.length - x.declared.params.length = e.options.weavingScheme.enhancingArgs.length := by
      rw [(woven.signature s known).length, Nat.add_sub_cancel]
    rcases Nat.eq_zero_or_pos x.viewDepth with none | entered
    · simp [view, known, none, added]
    · simp [view, known, entered, Nat.ne_of_gt entered]

theorem visible_eq_declared_iff (woven : e.IsWoven x) :
    x.visible = x.declared ↔ x.enhanced = none ∨ 0 < x.viewDepth := by
  rw [visible, view_of_woven woven]
  split
  · next declared => exact iff_of_true rfl declared
  · next enhanced =>
    refine iff_of_false (fun same => ?_) enhanced
    obtain ⟨s, known⟩ := Option.ne_none_iff_exists'.1 (not_or.1 enhanced).1
    -- The two signatures differ in how many parameters they have.
    have scheme := (woven.enhanced.1 (by rw [known]; rfl)).2
    have longer := (woven.signature s known).length
    rw [signature, known, Option.getD_some] at same
    rw [same] at longer
    exact scheme (List.eq_nil_of_length_eq_zero (by omega))

end Method

namespace Switch

def operation : Switch → Operation Unit
  | .enter m => .enterSourceView m
  | .exit m => .exitSourceView m

end Switch

namespace Resolve

theorem changeView_failed {change : Method → Except ViewError Method} {cause : ViewError} {o : Oracle}
    (h : change (e.method m) = .error cause) : changeView change m o e = (.error (.view cause), e) := by
  unfold changeView
  refine (bind_apply_ok (a := e) rfl).trans ?_
  simp only [h]
  rfl

end Resolve

theorem Switch.run_failed {s : Switch} {cause : Abort} (h : s.operation.perform.run e = (.error cause, e')) :
    e' = e := by
  have failed {change : Method → Except ViewError Method} {m : MethodId}
      (h : (Resolve.changeView change m).run e = (.error cause, e')) : e' = e := by
    cases outcome : change (e.method m) with
    | ok y =>
      cases (Resolve.changeView_apply outcome).symm.trans h
    | error reason =>
      cases (Resolve.changeView_failed outcome).symm.trans h
      rfl
  cases s with
  | enter m => exact failed h
  | exit m => exact failed h

namespace Operation

/-- The switch that the operation makes, if it is one and does not fail. -/
def switches {α : Type} (op : Operation α) (e : Env) : List Switch :=
  match (op.perform.run e).1 with
  | .ok _ => op.switch?.toList
  | .error _ => []

theorem switches_other {α : Type} {op : Operation α} (other : op.switch? = none) : op.switches e = [] := by
  unfold switches
  split <;> simp [other]

end Operation

namespace Env

/-- A session with the switches that it has made so far. -/
inductive History (provider : Provider) (options : Options) : List Switch → Env → Prop
  | new {e : Env} : Env.new provider options = .ok e → History provider options [] e
  | step {log : List Switch} {e : Env} {α : Type} (op : Operation α) : History provider options log e →
    History provider options (log ++ op.switches e) (op.perform.run e).2

theorem Reachable.exists_history (h : e.Reachable provider options) : ∃ log, History provider options log e := by
  induction h with
  | new made => exact ⟨[], .new made⟩
  | step op _ ih =>
    obtain ⟨log, history⟩ := ih
    exact ⟨_, history.step op⟩

/-- Methods are woven, and the depth of each tells how far its enters are ahead of its exits. -/
structure Tallies (e : Env) (log : List Switch) : Prop where
  woven (m : MethodId) : e.IsWoven (e.method m)
  depth (m : MethodId) : (e.method m).viewDepth + log.count (.exit m) = log.count (.enter m)

theorem isWoven_default : e.IsWoven default :=
  ⟨iff_of_false nofun fun h => Bool.noConfusion h.1, nofun⟩

namespace Tallies

theorem of_viewsLast (h : e.Tallies log) (lasts : e.ViewsLast e') : e'.Tallies log := by
  have same (m : MethodId) : (e'.method m).viewDepth = (e.method m).viewDepth ∧ e'.IsWoven (e'.method m) := by
    by_cases old : m.index < e.methods.size
    · have kept := lasts.kept m old
      simp only [Method.signatures, Prod.mk.injEq] at kept
      exact ⟨kept.2.2.2, (lasts.isWoven (h.woven m)).congr kept.1 kept.2.1 kept.2.2.1⟩
    · rw [method_of_size_le (Nat.le_of_not_lt old)]
      by_cases new : m.index < e'.methods.size
      · exact lasts.fresh m (Nat.le_of_not_lt old) new
      · rw [method_of_size_le (Nat.le_of_not_lt new)]
        exact ⟨rfl, isWoven_default⟩
  exact ⟨fun m => (same m).2, fun m => by rw [(same m).1, h.depth m]⟩

theorem update {depth : Nat} (h : e.Tallies log) (inside : m.index < e.methods.size) {s : Switch}
    (self : depth + (log ++ [s]).count (.exit m) = (log ++ [s]).count (.enter m))
    (others : ∀ n, n ≠ m → s ≠ .exit n ∧ s ≠ .enter n) :
    (e.updateMethod m fun _ => { e.method m with viewDepth := depth }).Tallies (log ++ [s]) := by
  have woven : e.IsWoven { e.method m with viewDepth := depth } := (h.woven m).congr rfl rfl rfl
  refine ⟨fun n => ?_, fun n => ?_⟩
  · rw [method_updateMethod]
    split
    · exact woven.with_methods
    · exact (h.woven n).with_methods
  · rw [method_updateMethod]
    split
    · next here =>
      rw [here.1]
      exact self
    · next elsewhere =>
      obtain ⟨exit, enter⟩ := others n fun here => elsewhere ⟨here, inside⟩
      simpa [exit, enter] using h.depth n

theorem enter (h : e.Tallies log) (op : (Switch.enter m).operation.perform.run e = (.ok (), e')) :
    (e.method m).enhanced.isSome = true ∧ e'.Tallies (log ++ [.enter m]) := by
  cases outcome : (e.method m).enterSourceView with
  | error cause => cases (Resolve.changeView_failed outcome).symm.trans op
  | ok y =>
    cases (Resolve.changeView_apply outcome).symm.trans op
    unfold Method.enterSourceView at outcome
    split at outcome
    · next views =>
      cases outcome
      refine ⟨views, h.update (lt_size_of_hasViews views) ?_ fun n other => ⟨nofun, fun same => ?_⟩⟩
      · have depth := h.depth m
        simp
        omega
      · cases same
        exact other rfl
    · cases outcome

theorem exit (h : e.Tallies log) (op : (Switch.exit m).operation.perform.run e = (.ok (), e')) :
    log.count (.exit m) < log.count (.enter m) ∧ e'.Tallies (log ++ [.exit m]) := by
  cases outcome : (e.method m).exitSourceView with
  | error cause => cases (Resolve.changeView_failed outcome).symm.trans op
  | ok y =>
    cases (Resolve.changeView_apply outcome).symm.trans op
    have depth := h.depth m
    unfold Method.exitSourceView at outcome
    split at outcome
    · cases outcome
    · next entered =>
      cases outcome
      have inside : m.index < e.methods.size := by
        by_contra outside
        rw [method_of_size_le (Nat.le_of_not_lt outside)] at entered
        exact entered rfl
      refine ⟨by omega, h.update inside ?_ fun n other => ⟨fun same => ?_, nofun⟩⟩
      · simp
        omega
      · cases same
        exact other rfl

theorem new (made : Env.new provider options = .ok e) : e.Tallies [] := by
  obtain ⟨config, rfl⟩ := eq_of_new made
  have empty (m : MethodId) : ({ options, provider, diagnostics := { config } } : Env).method m = default :=
    method_of_size_le (Nat.zero_le _)
  refine ⟨fun m => ?_, fun m => ?_⟩
  · rw [empty]
    exact isWoven_default
  · rw [empty]
    rfl

theorem perform_other {α : Type} {op : Operation α} (h : e.Tallies log) (other : op.switch? = none) :
    (op.perform.run e).2.Tallies (log ++ op.switches e) := by
  rw [Operation.switches_other other, List.append_nil]
  exact h.of_viewsLast ((op.keepsViews_perform other).run e)

theorem perform_switch (h : e.Tallies log) (s : Switch) :
    (s.operation.perform.run e).2.Tallies (log ++ s.operation.switches e) := by
  rcases outcome : s.operation.perform.run e with ⟨cause | ⟨⟩, e'⟩
  · rw [Operation.switches, outcome, List.append_nil, Switch.run_failed outcome]
    exact h
  · rw [Operation.switches, outcome]
    cases s with
    | enter m => exact (h.enter outcome).2
    | exit m => exact (h.exit outcome).2

theorem perform {α : Type} (h : e.Tallies log) (op : Operation α) :
    (op.perform.run e).2.Tallies (log ++ op.switches e) := by
  cases op with
  | enterSourceView m => exact h.perform_switch (.enter m)
  | exitSourceView m => exact h.perform_switch (.exit m)
  | _ => exact h.perform_other rfl

end Tallies

theorem History.tallies (h : History provider options log e) : e.Tallies log := by
  induction h with
  | new made => exact .new made
  | step op _ ih => exact ih.perform op

/-- What a method shows after these switches, and which of them it can make next. -/
structure ViewsAfter (e : Env) (log : List Switch) (m : MethodId) : Prop where
  woven : e.IsWoven (e.method m)
  view : (e.method m).view =
    if (e.method m).enhanced = none ∨ log.count (.exit m) < log.count (.enter m) then .declared
    else .enhanced e.options.weavingScheme.enhancingArgs.length
  visible : (e.method m).visible = (e.method m).declared ↔
    (e.method m).enhanced = none ∨ log.count (.exit m) < log.count (.enter m)
  enter : ((Switch.enter m).operation.perform.run e).1 = .ok () ↔ (e.method m).enhanced.isSome = true
  exit : ((Switch.exit m).operation.perform.run e).1 = .ok () ↔ log.count (.exit m) < log.count (.enter m)

theorem Tallies.viewsAfter (h : e.Tallies log) (m : MethodId) : e.ViewsAfter log m := by
  have entered : 0 < (e.method m).viewDepth ↔ log.count (.exit m) < log.count (.enter m) := by
    have depth := h.depth m
    omega
  refine ⟨h.woven m, ?_, ?_, ⟨fun done => ?_, fun views => ?_⟩, ⟨fun done => ?_, fun ahead => ?_⟩⟩
  · simp only [Method.view_of_woven (h.woven m), entered]
  · simp only [Method.visible_eq_declared_iff (h.woven m), entered]
  · exact (h.enter (Prod.ext done rfl)).1
  · exact congrArg Prod.fst (Resolve.changeView_apply (if_pos views))
  · exact (h.exit (Prod.ext done rfl)).1
  · exact congrArg Prod.fst (Resolve.changeView_apply (if_neg (Nat.ne_of_gt (entered.2 ahead))))

/-- In every environment of a session a callin method has an enhanced signature if weaving adds parameters, and no
other method has one; it shows that signature unless its source view has been entered more often than left. A switch
that fails changes nothing, no other operation shows another signature of a method, and no operation whatever
changes the signatures of a method. -/
theorem Reachable.views (h : e.Reachable provider options) :
    (∃ log, History provider options log e) ∧
    (∀ log, History provider options log e → ∀ m, e.ViewsAfter log m) ∧
    (∀ (s : Switch) (cause : Abort) (e' : Env), s.operation.perform.run e = (.error cause, e') → e' = e) ∧
    (∀ {α : Type} (op : Operation α), op.switch? = none → ∀ m,
      ((op.perform.run e).2.method m).viewDepth = (e.method m).viewDepth) ∧
    ∀ e', e.Leads e' → ∀ m, m.index < e.methods.size →
      (e'.method m).declared = (e.method m).declared ∧ (e'.method m).enhanced = (e.method m).enhanced := by
  obtain ⟨log, history⟩ := h.exists_history
  refine ⟨⟨log, history⟩, fun log history m => history.tallies.viewsAfter m, fun s cause e' => Switch.run_failed,
    fun op other m => ?_, fun e' leads m inside => ⟨?_, ?_⟩⟩
  · have before := history.tallies.depth m
    have after := (history.tallies.of_viewsLast ((op.keepsViews_perform other).run e)).depth m
    omega
  · exact leads.lasts.methods.proj_eq inside fun _ => rfl
  · exact leads.lasts.methods.proj_eq inside fun _ => rfl

theorem History.step_other {α : Type} (h : History provider options log e) (op : Operation α)
    (other : op.switch? = none) : History provider options log (op.perform.run e).2 := by
  have next := h.step op
  rwa [Operation.switches_other other, List.append_nil] at next

/-- A team with a role that replaces a method of its base class. -/
def wrapping : UnitDecl where
  fileName := "U"
  package := "p"
  types := [{ name := "B", methods := [{ name := "m" }] },
    { name := "T", modifiers := [.team]
      memberTypes := [{
        name := "R", playedBy := some (.ofName "B"), methods := [{ name := "wrap", modifiers := [.callin] }]
        callins := [{ roleMethod := { name := "wrap" }, kind := .replace, baseMethods := [{ name := "m" }] }] }] }]

def wrapped : Env := ((Operation.ask (.methods ⟨2⟩)).perform.run (declaring wrapping)).2

/-- The source view of the callin method is entered, and then mappings are resolved. -/
def unwrapped : Env :=
  ((Operation.mappings ⟨2⟩).perform.run ((Operation.enterSourceView ⟨0⟩).perform.run wrapped).2).2

theorem reachable_unwrapped : unwrapped.Reachable .empty {} :=
  .step (.mappings ⟨2⟩) (.step (.enterSourceView ⟨0⟩) (.step (.ask (.methods ⟨2⟩)) reachable_declaring))

theorem history_unwrapped : History .empty {} [.enter ⟨0⟩] unwrapped := by
  have begun : History .empty {} [] wrapped :=
    ((History.new rfl).step_other (.addUnits [wrapping]) rfl).step_other (.ask (.methods ⟨2⟩)) rfl
  have entered : (Operation.enterSourceView ⟨0⟩).switches wrapped = [.enter ⟨0⟩] := by decide +kernel
  have next := begun.step (.enterSourceView ⟨0⟩)
  rw [entered] at next
  exact next.step_other (.mappings ⟨2⟩) rfl

theorem views_unwrapped : unwrapped.Reachable .empty {} ∧ History .empty {} [.enter ⟨0⟩] unwrapped ∧
    (unwrapped.method ⟨0⟩).enhanced.isSome = true ∧
    (unwrapped.method ⟨0⟩).visible = (unwrapped.method ⟨0⟩).declared ∧
    ((Switch.exit ⟨0⟩).operation.perform.run unwrapped).1 = .ok () := by
  have shows := reachable_unwrapped.views.2.1 _ history_unwrapped ⟨0⟩
  have ahead : List.count (.exit ⟨0⟩) [Switch.enter ⟨0⟩] < List.count (.enter ⟨0⟩) [Switch.enter ⟨0⟩] := by decide
  exact ⟨reachable_unwrapped, history_unwrapped, by decide +kernel, shows.visible.2 (.inr ahead), shows.exit.2 ahead⟩

end Env

end TeamRoles
