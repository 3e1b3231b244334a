import TeamRoles.Proofs.Session.Severity

/-!
What there is of the units in an environment: the types that they declare, and the problems that account for
the declarations of which there is no type. To look for a type adds nothing to either.
-/

namespace TeamRoles

/-- A problem of this kind tells of declarations that no type is made of. -/
def ProblemId.isLoss (p : ProblemId) : Bool := p == .duplicateTypes || p == .roleFileTeamNotFound

theorem Binding.isSource_of_decl? {x : Binding} {decl : TypeDecl} (given : x.decl? = some decl) :
    x.isSource = true := by
  unfold decl? at given
  split at given
  · next origin => exact isSource_of_origin origin
  · cases given

namespace Env

variable {e e' : Env} {b : BindingId} {x : Binding} {name : String}

/-- The types that units declare, in the order of their bindings. -/
def sources (e : Env) : List BindingId :=
  ((List.range e.bindings.size).map BindingId.mk).filter fun b => (e.binding b).isSource

def losses (e : Env) : List Problem := e.diagnostics.problems.toList.filter (·.id.isLoss)

def Taken (e : Env) (name : String) : Prop := ∃ b ∈ e.sources, e.lookup? name = some b

theorem mem_sources : b ∈ e.sources ↔ b.index < e.bindings.size ∧ (e.binding b).isSource = true := by
  rw [sources, List.mem_filter, List.mem_map]
  refine and_congr_left fun _ => ⟨?_, fun inside => ⟨b.index, List.mem_range.2 inside, rfl⟩⟩
  rintro ⟨i, inside, rfl⟩
  exact List.mem_range.1 inside

theorem nodup_sources : e.sources.Nodup :=
  (List.nodup_range.map fun _ _ => congrArg BindingId.index).filter _

theorem sources_congr (size : e'.bindings.size = e.bindings.size)
    (source : ∀ b, (e'.binding b).isSource = (e.binding b).isSource) : e'.sources = e.sources := by
  simp only [sources, size, source]

theorem sources_addBinding :
    (e.addBinding x).sources = e.sources ++ if x.isSource then [e.nextBinding] else [] := by
  have size : (e.addBinding x).bindings.size = e.bindings.size + 1 := by simp [addBinding]
  have before : ∀ b ∈ (List.range e.bindings.size).map BindingId.mk,
      ((e.addBinding x).binding b).isSource = (e.binding b).isSource := by
    intro b hb
    obtain ⟨i, inside, rfl⟩ := List.mem_map.1 hb
    rw [binding_addBinding_of_ne]
    rintro ⟨⟩
    exact Nat.lt_irrefl _ (List.mem_range.1 inside)
  rw [sources, size, List.range_succ, List.map_append, List.filter_append, List.filter_congr before]
  have last : (List.map BindingId.mk [e.bindings.size]).filter (fun b => ((e.addBinding x).binding b).isSource) =
      if x.isSource then [e.nextBinding] else [] := by
    change [e.nextBinding].filter _ = _
    rw [List.filter_singleton, binding_addBinding_self, Bool.cond_eq_ite]
  rw [last, sources]

theorem sources_declare (source : x.isSource = true) : (e.declare x).sources = e.sources ++ [e.nextBinding] :=
  sources_addBinding.trans (by rw [if_pos source])

theorem losses_report {r : Report} : (e.report r.file r.id r.span r.arguments).losses =
    e.losses ++ if r.id.isLoss then (r.under e.diagnostics.config).toList else [] := by
  have kept : r.id.isLoss = true → r.id.isDeprecated = false := by
    intro loss
    rcases Bool.or_eq_true_iff.1 loss with same | same <;> rw [eq_of_beq same] <;> rfl
  unfold report Diagnostics.report Diagnostics.toReport?
  by_cases loss : r.id.isLoss = true
  · cases given : e.diagnostics.config.effective? r.id <;>
      simp [Diagnostics.setFile, losses, Report.under, loss, kept loss, given]
  · cases r.id.isDeprecated <;> cases given : e.diagnostics.config.effective? r.id <;>
      simp [Diagnostics.setFile, losses, loss, given]

theorem Lasts.mem_sources (h : e.Lasts e') (source : b ∈ e.sources) : b ∈ e'.sources := by
  obtain ⟨inside, isSource⟩ := Env.mem_sources.1 source
  refine Env.mem_sources.2 ⟨Nat.lt_of_lt_of_le inside h.size, ?_⟩
  rw [Binding.isSource, Binding.unit?, h.origin_eq inside]
  exact isSource

end Env

open Env

variable {ℓ : Nat} {e e' : Env} {r : Option Abort} {name : String}

theorem Step.sources_eq (h : Step ℓ e e') (low : ℓ < 8) : e'.sources = e.sources := by
  cases h with
  | quiet same => exact sources_congr same.size fun b => same.proj_eq (g := Binding.isSource) (fun _ => rfl) b
  | declare level | roleFile level => exact absurd low (Nat.not_lt_of_le level)
  | @load x d _ _ origin =>
    have compiled : x.isSource = false := by rw [Binding.isSource, Binding.unit?, origin]; rfl
    refine sources_addBinding.trans ?_
    rw [compiled]
    exact List.append_nil _
  | standIn => exact sources_addBinding.trans (List.append_nil _)
  | @store c v => cases c <;> rfl
  | otherName | corrupt | missing | methods | mapping => rfl

theorem Runs.sources_eq (h : Runs ℓ e r e') (low : ℓ < 8) : e'.sources = e.sources := by
  have framed {e e' : Env} (same : e.SameFrame e') : e'.sources = e.sources :=
    sources_congr same.size fun b => same.proj_eq (g := Binding.isSource) (fun _ => rfl) b
  refine h.keeps (I := fun e' => e'.sources = e.sources) (fun step same => (step.sources_eq low).trans same) ?_ ?_ rfl
  · exact fun _ _ _ => (framed sameFrame_setSlot).trans
  · exact fun _ _ _ _ _ => (framed sameFrame_setSlot).trans

theorem Runs.taken (h : Runs ℓ e r e') (taken : e.Taken name) : e'.Taken name := by
  have framed {e e' : Env} (same : e.SameFrame e') : e.Taken name → e'.Taken name := by
    have sources : e'.sources = e.sources :=
      sources_congr same.size fun b => same.proj_eq (g := Binding.isSource) (fun _ => rfl) b
    rintro ⟨b, source, found⟩
    exact ⟨b, by rwa [sources], by rwa [same.lookup?_eq]⟩
  refine h.keeps (I := fun e => e.Taken name) (fun step => ?_) (fun _ _ _ => framed sameFrame_setSlot)
    (fun _ _ _ _ _ => framed sameFrame_setSlot) taken
  rintro ⟨b, source, found⟩
  rcases step.lookup?_eq found with kept | ⟨-, x, isSource, named, rfl⟩
  · exact ⟨b, step.lasts.mem_sources source, kept⟩
  · refine ⟨_, ?_, lookup?_declare.trans (if_pos named.symm)⟩
    rw [sources_declare isSource]
    exact List.mem_append_right _ (List.mem_singleton_self _)

namespace Env

structure Spares (e e' : Env) : Prop where
  units : e'.units = e.units
  losses : e'.losses = e.losses
  config : e'.diagnostics.config = e.diagnostics.config

namespace Spares

theorem refl (e : Env) : e.Spares e := ⟨rfl, rfl, rfl⟩

theorem trans {e'' : Env} (h : e.Spares e') (h' : e'.Spares e'') : e.Spares e'' :=
  ⟨h'.units.trans h.units, h'.losses.trans h.losses, h'.config.trans h.config⟩

theorem of_eq (units : e'.units = e.units) (diagnostics : e'.diagnostics = e.diagnostics) : e.Spares e' :=
  ⟨units, by rw [Env.losses, diagnostics, Env.losses], congrArg Diagnostics.config diagnostics⟩

theorem report {file : Option String} {p : ProblemId} {span : Span} {arguments : List String}
    (other : p.isLoss = false) : e.Spares (e.report file p span arguments) where
  units := rfl
  losses := (losses_report (r := ⟨p, file, span, arguments⟩)).trans (by rw [other]; exact List.append_nil _)
  config := Diagnostics.config_report

end Spares

end Env

structure Oracle.Spares (o : Oracle) : Prop where
  findType : ∀ name (e : Env), e.Spares (o.ask (.findType name) e).2

namespace Resolve

variable {α β : Type}

def Spares (x : Resolve α) : Prop := ∀ o : Oracle, o.Spares → ∀ e : Env, e.Spares (x o e).2

namespace Spares

theorem pure {a : α} : Spares (pure a) := fun _ _ e => .refl e

theorem bind {x : Resolve α} {f : α → Resolve β} (hx : Spares x) (hf : ∀ a, Spares (f a)) : Spares (x >>= f) :=
  fun o ho e => after_bind .trans (hx o ho e) fun a e' => hf a o ho e'

theorem get_bind {f : Env → Resolve β} (h : ∀ e, Spares (f e)) : Spares (get >>= f) := fun o ho e => h e o ho e

theorem ite {c : Prop} [Decidable c] {x y : Resolve α} (hx : Spares x) (hy : Spares y) :
    Spares (if c then x else y) := by
  split
  · exact hx
  · exact hy

theorem modify {f : Env → Env} (units : ∀ e, (f e).units = e.units)
    (diagnostics : ∀ e, (f e).diagnostics = e.diagnostics) : Spares (modify f : Resolve PUnit) :=
  fun _ _ e => .of_eq (units e) (diagnostics e)

theorem reportFor {b : BindingId} {p : ProblemId} {span : Span} {arguments : List String} (other : p.isLoss = false) :
    Spares (reportFor b p span arguments) :=
  fun _ _ _ => Env.Spares.report other

end Spares

theorem spares_addDescriptor {d : Descriptor} : Spares (addDescriptor d) := by
  unfold addDescriptor
  extract_lets isTeam add
  have added (enclosing : Option BindingId) : Spares (add enclosing) := by
    refine .get_bind fun e => ?_
    split
    · exact .pure
    · refine .bind (fun _ _ e => .of_eq rfl rfl) fun b => .bind (.modify (fun _ => rfl) fun _ => rfl) fun _ => ?_
      refine .bind (.get_bind fun _ => .modify (fun _ => rfl) fun _ => rfl) fun _ => .bind ?_ fun _ => .pure
      unfold reportLimitation
      split
      · exact .reportFor rfl
      · exact .reportFor rfl
      · exact .pure
  split
  · split
    · exact .bind .pure added
    · exact .bind (fun o ho => ho.findType _) added
  · exact .bind .pure added

theorem spares_findType {name : String} : Spares (findType name) := by
  refine .get_bind fun e => ?_
  split
  · exact .pure
  · refine .ite .pure ?_
    split
    · refine .bind spares_addDescriptor fun b => .get_bind fun _ => ?_
      exact .ite (.bind (.modify (fun _ => rfl) fun _ => rfl) fun _ => .pure) .pure
    · exact .bind (.modify (fun _ => rfl) fun _ => rfl) fun _ => .pure
    · refine .bind (.get_bind fun _ => ?_) fun b => ?_
      · split
        · exact .pure
        · exact .bind (fun _ _ e => .of_eq rfl rfl) fun _ => .bind (.modify (fun _ => rfl) fun _ => rfl) fun _ => .pure
      · exact .bind (.modify (fun _ => rfl) fun _ => rfl) fun _ => .bind (.reportFor rfl) fun _ => .pure

theorem spares_oracle (depth : Nat) : (oracle depth).Spares := by
  induction depth with
  | zero => exact ⟨fun _ e => .refl e⟩
  | succ depth ih => exact ⟨fun _ => spares_findType (oracle depth) ih⟩

end Resolve

end TeamRoles
