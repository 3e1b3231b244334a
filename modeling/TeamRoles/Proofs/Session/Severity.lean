import TeamRoles.Proofs.Pairing.Session

/-!
Severities are seen in problems only. Two sessions whose options differ in them run alike: they pair with
one session in which every problem has its default severity, and whose problems are the reports of both.
-/

namespace TeamRoles

variable {c : SeverityConfig} {e e' : Env} {r : Reporting}

namespace SeverityConfig

theorem strict_addLevel {c' : SeverityConfig} {name : String} {level : Level}
    (h : c.addLevel name level = .ok c') : c'.strict = c.strict := by
  unfold addLevel at h
  split at h
  · cases h
  · split at h
    · cases h
    · cases h
      rfl

theorem strict_foldlM {table : List (String × Level)} {c' : SeverityConfig}
    (h : table.foldlM (fun c (name, level) => c.addLevel name level) c = .ok c') :
    c'.strict = c.strict := by
  induction table generalizing c with
  | nil =>
    cases h
    rfl
  | cons entry table ih =>
    obtain ⟨name, level⟩ := entry
    rw [List.foldlM_cons] at h
    dsimp only at h
    cases added : c.addLevel name level with
    | error cause =>
      rw [added] at h
      cases h
    | ok next =>
      rw [added] at h
      rw [ih h, strict_addLevel added]

theorem strict_of_options {options : Options} (h : options.severityConfig = .ok c) :
    c.strict = options.strict :=
  strict_foldlM h

theorem effective?_ne_warning {id : ProblemId} (strict : c.strict = true) :
    c.effective? id ≠ some .warning := by
  unfold effective?
  cases (c.overrides.lookup id).getD (some id.defaultSeverity) with
  | none => nofun
  | some s => cases s <;> simp [strict]

theorem effective?_default {id : ProblemId} :
    ({} : SeverityConfig).effective? id = some id.defaultSeverity := by
  simp [effective?]

end SeverityConfig

namespace Diagnostics

variable {d : Diagnostics} {id : ProblemId} {span : Span} {arguments : List String}

theorem config_report : (d.report id span arguments).config = d.config := by
  unfold report
  split
  · rfl
  · rfl

theorem report_under (default : d.config = {}) :
    (d.under c).report id span arguments = (d.report id span arguments).under c := by
  by_cases deprecated : id.isDeprecated = true
  · simp [report, toReport?, deprecated]
  · cases weight : c.effective? id <;>
      simp [report, toReport?, under, deprecated, default, weight, SeverityConfig.effective?_default,
        Problem.under, Problem.report, Report.under]

end Diagnostics

namespace Env

variable {file : Option String} {id : ProblemId} {span : Span} {arguments : List String}

theorem config_report :
    (e.report file id span arguments).diagnostics.config = e.diagnostics.config :=
  Diagnostics.config_report

theorem report_under (default : e.diagnostics.config = {}) :
    (e.under r).report file id span arguments = (e.report file id span arguments).under r := by
  have reported : ((e.diagnostics.setFile file).under r.config).report id span arguments =
      ((e.diagnostics.setFile file).report id span arguments).under r.config :=
    Diagnostics.report_under default
  have moved : ((e.under r).diagnostics.setFile file) =
      (e.diagnostics.setFile file).under r.config := rfl
  rw [report, moved, reported]
  rfl

end Env

def Pairing.weighing (r : Reporting) : Pairing where
  Pairs e e' := e.diagnostics.config = {} ∧ e' = e.under r
  Queues _ _ := True
  Builds := True
  Opens := True
  alike := fun ⟨_, weighed⟩ => .inr ⟨r, weighed⟩
  begun _ _ _ := .inr fun _ _ => trivial
  designator _ _ _ _ := trivial
  apart := by
    rintro e _ g apart - - ⟨default, rfl⟩
    exact ⟨by rw [apart.diagnostics, default], apart.under e r⟩
  report := by
    rintro e _ file id span arguments ⟨default, rfl⟩
    exact ⟨by rw [Env.config_report, default], Env.report_under default⟩
  update := by
    rintro e _ b f - ⟨default, rfl⟩
    exact ⟨default, rfl⟩
  members := by
    rintro e _ b list ⟨default, rfl⟩ -
    exact ⟨default, rfl⟩
  add := by
    rintro e _ x - ⟨default, rfl⟩
    exact ⟨default, rfl⟩
  attach := by
    rintro e _ b team - ⟨default, rfl⟩
    exact ⟨default, rfl⟩
  roleFile := by
    rintro e _ team unit roles - ⟨default, rfl⟩
    exact ⟨default, rfl⟩
  queue := by
    rintro e _ t unit span - ⟨default, rfl⟩
    exact ⟨default, rfl⟩
  drain := by
    rintro e _ ⟨default, rfl⟩
    exact ⟨default, rfl⟩

namespace Operation

/-- Does operations one after another, each whether or not the one before it was aborted, and gives their
outcomes. -/
def performAll : List (Σ α : Type, Operation α) → Env → List (Σ α : Type, Except Abort α) × Env
  | [], e => ([], e)
  | op :: ops, e =>
    let done := op.2.perform.run e
    let rest := performAll ops done.2
    (⟨op.1, done.1⟩ :: rest.1, rest.2)

theorem performAll_agree {p : Pairing} (builds : p.Builds) (ops : List (Σ α : Type, Operation α))
    (pairs : p.Pairs e e') (opens : p.Opens := by trivial) : (performAll ops e').1 = (performAll ops e).1 ∧
      p.Pairs (performAll ops e).2 (performAll ops e').2 := by
  induction ops generalizing e e' with
  | nil => exact ⟨rfl, pairs⟩
  | cons op ops ih =>
    obtain ⟨same, paired⟩ := (Resolve.keeps_perform builds op.2 fun _ => opens).run pairs
    obtain ⟨outcomes, left⟩ := ih paired
    refine ⟨?_, left⟩
    simp only [performAll, same, outcomes]

theorem performAll_leads (ops : List (Σ α : Type, Operation α)) {d : Env} (h : d.Leads e) :
    d.Leads (performAll ops e).2 := by
  induction ops generalizing e with
  | nil => exact h
  | cons op ops ih => exact ih (.step op.2 h)

end Operation

def Options.unweighed (o : Options) : Options := { o with severities := {}, strict := false }

/-- The problems are the reports that the options do not ignore, with the weights they give them. -/
structure Diagnostics.Weighs (d : Diagnostics) (options : Options) (reports : List Report) : Prop where
  problems : ∃ config, options.severityConfig = .ok config ∧
    d.problems.toList = reports.filterMap (Report.under config)
  strict : options.strict = true → ∀ p ∈ d.problems, p.severity ≠ .warning

theorem Diagnostics.weighs_under {d : Diagnostics} {options : Options}
    (configured : options.severityConfig = .ok c) :
    (d.under c).Weighs options (d.problems.toList.map Problem.report) := by
  have problems : (d.under c).problems.toList =
      (d.problems.toList.map Problem.report).filterMap (Report.under c) := by
    rw [List.filterMap_map, under, Array.toList_filterMap]
    rfl
  refine ⟨⟨c, configured, problems⟩, fun strict p hp => ?_⟩
  obtain ⟨report, -, weighed⟩ := List.mem_filterMap.1 (problems ▸ Array.mem_toList_iff.2 hp)
  obtain ⟨s, effective, rfl⟩ := Option.map_eq_some_iff.1 weighed
  rintro rfl
  refine SeverityConfig.effective?_ne_warning ?_ effective
  rw [SeverityConfig.strict_of_options configured, strict]

namespace Env

variable {provider : Provider} {options other : Options}

theorem weighing_of_new (made : Env.new provider options = .ok e) :
    ∃ c, options.severityConfig = .ok c ∧
      (Pairing.weighing ⟨options.severities, options.strict, c⟩).Pairs
        { options := options.unweighed, provider } e := by
  unfold Env.new at made
  split at made
  · next c configured =>
    cases made
    exact ⟨c, configured, rfl, rfl⟩
  · cases made

/-- Sessions that differ in their severities only have the same outcomes and environments, and problems
that are the same reports under different weights. -/
theorem severity_noninterference
    (alike : other = { options with severities := other.severities, strict := other.strict })
    (made : Env.new provider options = .ok e) (made' : Env.new provider other = .ok e')
    (ops : List (Σ α : Type, Operation α)) :
    (Operation.performAll ops e').1 = (Operation.performAll ops e).1 ∧
    (Operation.performAll ops e').2 = { (Operation.performAll ops e).2 with
      options := other, diagnostics := (Operation.performAll ops e').2.diagnostics } ∧
    ∃ reports, (Operation.performAll ops e).2.diagnostics.Weighs options reports ∧
      (Operation.performAll ops e').2.diagnostics.Weighs other reports := by
  obtain ⟨c, configured, start⟩ := weighing_of_new made
  obtain ⟨c', configured', start'⟩ := weighing_of_new made'
  have same : other.unweighed = options.unweighed := by
    rw [alike]
    rfl
  rw [same] at start'
  obtain ⟨outcomes, -, left⟩ := Operation.performAll_agree trivial ops start
  obtain ⟨outcomes', -, left'⟩ := Operation.performAll_agree trivial ops start'
  let unweighed : Env := { options := options.unweighed, provider }
  refine ⟨outcomes'.trans outcomes.symm, ?_,
    (Operation.performAll ops unweighed).2.diagnostics.problems.toList.map Problem.report, ?_, ?_⟩
  · have kept := (Operation.performAll_leads ops (.refl (e := e'))).lasts.options
    have given : e'.options = other := by
      obtain ⟨_, rfl⟩ := eq_of_new made'
      rfl
    rw [left, ← given, ← kept, left']
    rfl
  · rw [left]
    exact Diagnostics.weighs_under configured
  · rw [left']
    exact Diagnostics.weighs_under configured'

def repeated : UnitDecl where
  fileName := "U"
  imports := [{ name := "x.Y" }, { name := "x.Y" }]

/-- Imports that are not there are ignored, and all else is an error. -/
def lenient : Options where
  severities := ⟨[("IMPORT_NOT_FOUND", .ignore)]⟩
  strict := true

theorem severity_noninterference_repeated :
    ∃ e e', Env.new .empty {} = .ok e ∧ Env.new .empty lenient = .ok e' ∧
      let ops : List (Σ α : Type, Operation α) := [⟨_, .addUnits [repeated]⟩, ⟨_, .imports ⟨0⟩⟩]
      (Operation.performAll ops e').1 = (Operation.performAll ops e).1 ∧
      (Operation.performAll ops e').2 = { (Operation.performAll ops e).2 with
        options := lenient, diagnostics := (Operation.performAll ops e').2.diagnostics } ∧
      (Operation.performAll ops e).2.diagnostics.problems.toList.map (fun p => (p.id, p.severity)) =
        [(.importNotFound, .error), (.duplicateImport, .warning)] ∧
      (Operation.performAll ops e').2.diagnostics.problems.toList.map (fun p => (p.id, p.severity)) =
        [(.duplicateImport, .error)] := by
  have made : Env.new .empty {} = .ok { options := {}, provider := .empty } := rfl
  have made' : Env.new .empty lenient = .ok
      { options := lenient, provider := .empty, diagnostics := { config := _ } } := rfl
  obtain ⟨outcomes, left, -⟩ := severity_noninterference rfl made made'
    [⟨_, .addUnits [repeated]⟩, ⟨_, .imports ⟨0⟩⟩]
  exact ⟨_, _, made, made', outcomes, left, by decide +kernel, by decide +kernel⟩

end Env

end TeamRoles
